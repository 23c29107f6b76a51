/-
From sector numbers to cylinders, heads and sectors, and back.

# The cells

`lba_2_chs` reads three cells and writes three others, and its stack has
to lie clear of them (`Cells`). What it leaves is `Converted`: quotient
and remainders of the number by the two geometry cells. From there on the
properties are arithmetic.

# Two slips

`load_boot_drive_params` stores the head count one byte too high, so `hpc`
is 256 times what it should be. The stored address is then right only
while it stays on the first cylinder (`geometry_iff`), and 256 heads make
the divisor zero.

`read_disk_sectors` shifts the cylinder to CH and leaves no room for its
bits 8 and 9, so an address goes through the `int` only below cylinder 256
(`encoding_iff`).
-/
import BootLoader.Lib.Geometry
import BootLoader.FirstStage.Disk
import BootLoader.FirstStage.Proofs.BiosPrint

namespace BootLoader.FirstStage

open FlatMemory Segment RealMode Pc

variable {ω : Type _} {B : Bios ω} {L : DiskLabels} {own : BitVec 64 → Prop}
  {depth : Nat} {c d e : Pc ω} {m : Mem} {ds : BitVec 16}

-- ============================================================= the cells

/-- The bytes the disk routines write: `lba_sector` to `Sector`. -/
def Cells (L : DiskLabels) (ds : BitVec 16) (b : BitVec 64) : Prop :=
  ∃ k : Nat, 1 ≤ k ∧ k < 12
    ∧ b = linear ds (L.boot_drive + BitVec.ofNat 16 k)

/-- The bytes of the BIOS and the cells together. -/
def ownDisk (own : BitVec 64 → Prop) (L : DiskLabels) (ds : BitVec 16)
    (b : BitVec 64) : Prop := own b ∨ Cells L ds b

/-- A cell after a store to another. -/
theorem cell_store_far (o : BitVec 16) {i j n k : Nat}
    (v : BitVec (8 * n)) (hi : i + n ≤ 12) (hj : j + k ≤ 12) (hk : 0 < k)
    (h : i + n ≤ j ∨ j + k ≤ i) :
    load (store m ds (o + BitVec.ofNat 16 i) n v) ds (o + BitVec.ofNat 16 j) k
      = load m ds (o + BitVec.ofNat 16 j) k := by
  have hd : (o + BitVec.ofNat 16 j - (o + BitVec.ofNat 16 i)).toNat
      = (65536 - i + j) % 65536 := by
    simp only [BitVec.toNat_sub, BitVec.toNat_add, BitVec.toNat_ofNat]
    omega
  exact load_store_far m ds _ _ v (by omega) (by omega)

/-- A store to a cell changes cells only. -/
theorem cell_store_out {i n : Nat} (v : BitVec (8 * n)) (hi : 1 ≤ i)
    (hn : i + n ≤ 12) {b : BitVec 64} (hb : ¬ Cells L ds b) :
    store m ds (L.boot_drive + BitVec.ofNat 16 i) n v b = m b := by
  refine fill_out m _ fun k hk heq => hb ⟨i + k, by omega, by omega, ?_⟩
  rw [heq, BitVec.add_assoc, ← BitVec.ofNat_add]

/-- A cell, where the cells are as they were. -/
theorem cell_congr {m' : Mem} {i n : Nat} (hi : 1 ≤ i) (hn : i + n ≤ 12)
    (h : ∀ b, Cells L ds b → m' b = m b) :
    load m' ds (L.boot_drive + BitVec.ofNat 16 i) n
      = load m ds (L.boot_drive + BitVec.ofNat 16 i) n := by
  refine load_congr fun k hk => h _ ⟨i + k, by omega, by omega, ?_⟩
  rw [BitVec.add_assoc, ← BitVec.ofNat_add]

-- ============================================================ lba_2_chs

/-- What a division leaves beside AX and DX. -/
structure Aside (c d : Pc ω) : Prop where
  reg : ∀ r, r ≠ .ax → r ≠ .dx → d.reg r = c.reg r
  high : d.high = c.high
  seg : d.seg = c.seg
  mem : d.mem = c.mem
  issued : d.issued = c.issued

/-- A division with nothing in DX: it cannot overflow. -/
theorem div_word_spec {o : BitVec 16} {n v : BitVec 16}
    (hdx : c.reg .dx = 0#16) (hax : c.reg .ax = n) (hw : c.word .ds o = v)
    (hv : v ≠ 0#16) :
    ∃ d, div_word o c = .ok d
      ∧ d.reg .ax = BitVec.ofNat 16 (n.toNat / v.toNat)
      ∧ d.reg .dx = BitVec.ofNat 16 (n.toNat % v.toNat) ∧ Aside c d := by
  have hn : ((c.reads .ds o 2).reg .dx).toNat * 65536
      + ((c.reads .ds o 2).reg .ax).toNat = n.toNat := by
    rw [reads_reg, hdx, hax]
    exact Nat.zero_add _
  have hle : n.toNat / v.toNat ≤ 65535 :=
    Nat.le_trans (Nat.div_le_self _ _) (Nat.le_of_lt_succ n.isLt)
  refine ⟨((c.reads .ds o 2).set .ax (BitVec.ofNat 16
    (n.toNat / v.toNat))).set .dx (BitVec.ofNat 16 (n.toNat % v.toNat)),
    ?_, rfl, rfl, ?_, rfl, rfl, rfl, rfl⟩
  · unfold div_word Pc.div
    simp only [hn, hw]
    exact if_neg (fun h => h.elim hv (by omega))
  · exact fun r hax' hdx' => (if_neg hdx').trans (if_neg hax')

theorem div_word_zero {o : BitVec 16} (hv : c.word .ds o = 0#16) :
    div_word o c = .error .divideError := if_pos (Or.inl hv)

/-- Memory with the three cells of an address written. -/
def chsMem (L : DiskLabels) (ds : BitVec 16) (m : Mem)
    (cylinder sector : BitVec 16) (head : BitVec 8) : Mem :=
  store (store (store m ds L.Sector 2 sector) ds L.Cylinder 2 cylinder) ds
    L.Head 1 head

/-- What a conversion leaves: the address of sector `l` in the cells, the
other cells as they were. -/
structure Converted (L : DiskLabels) (c d : Pc ω) : Prop where
  cylinder : d.word .ds L.Cylinder = BitVec.ofNat 16
    ((c.word .ds L.lba_sector).toNat / (c.word .ds L.spt).toNat
      / (c.word .ds L.hpc).toNat)
  head : d.byte .ds L.Head = BitVec.ofNat 8
    ((c.word .ds L.lba_sector).toNat / (c.word .ds L.spt).toNat
      % (c.word .ds L.hpc).toNat)
  sector : d.word .ds L.Sector = BitVec.ofNat 16
    ((c.word .ds L.lba_sector).toNat % (c.word .ds L.spt).toNat + 1)
  lba : d.word .ds L.lba_sector = c.word .ds L.lba_sector
  spt : d.word .ds L.spt = c.word .ds L.spt
  hpc : d.word .ds L.hpc = c.word .ds L.hpc

/-- The six cells, read where an address has just been written. -/
theorem chsMem_cells (m : Mem) (cylinder sector : BitVec 16)
    (head : BitVec 8) :
    let m' := chsMem L ds m cylinder sector head
    load m' ds L.Cylinder 2 = cylinder
      ∧ m' (linear ds L.Head) = head
      ∧ load m' ds L.Sector 2 = sector
      ∧ load m' ds L.lba_sector 2 = load m ds L.lba_sector 2
      ∧ load m' ds L.spt 2 = load m ds L.spt 2
      ∧ load m' ds L.hpc 2 = load m ds L.hpc 2 := by
  have hlow : ∀ i, 1 ≤ i → i + 2 ≤ 7 →
      load (chsMem L ds m cylinder sector head) ds
          (L.boot_drive + BitVec.ofNat 16 i) 2
        = load m ds (L.boot_drive + BitVec.ofNat 16 i) 2 := by
    intro i h1 h2
    unfold chsMem
    rw [DiskLabels.Head, DiskLabels.Cylinder, DiskLabels.Sector,
      cell_store_far (n := 1) _ _ (by omega) (by omega) (by omega) (by omega),
      cell_store_far (n := 2) _ _ (by omega) (by omega) (by omega) (by omega),
      cell_store_far (n := 2) _ _ (by omega) (by omega) (by omega) (by omega)]
  refine ⟨?_, ?_, ?_, hlow 1 (by omega) (by omega), hlow 3 (by omega)
    (by omega), hlow 5 (by omega) (by omega)⟩
  · unfold chsMem
    rw [DiskLabels.Head, DiskLabels.Cylinder,
      cell_store_far (n := 1) _ _ (by omega) (by omega) (by omega) (by omega)]
    exact load_store_self (n := 2) _ _ _ _ (by omega)
  · have hat := fill_at (store (store m ds L.Sector 2 sector) ds L.Cylinder 2
      cylinder) ds L.Head (fun k => head.extractLsb' (8 * k) 8) (n := 1)
      (k := 0) (by omega) (by omega)
    rw [BitVec.add_zero] at hat
    exact hat.trans BitVec.extractLsb'_eq_self
  · unfold chsMem
    rw [DiskLabels.Head, DiskLabels.Cylinder, DiskLabels.Sector,
      cell_store_far (n := 1) _ _ (by omega) (by omega) (by omega) (by omega),
      cell_store_far (n := 2) _ _ (by omega) (by omega) (by omega) (by omega)]
    exact load_store_self (n := 2) _ _ _ _ (by omega)

theorem chsMem_out {cylinder sector : BitVec 16} {head : BitVec 8}
    {b : BitVec 64} (hb : ¬ Cells L ds b) :
    chsMem L ds m cylinder sector head b = m b := by
  unfold chsMem
  rw [DiskLabels.Head, DiskLabels.Cylinder, DiskLabels.Sector,
    cell_store_out (i := 9) (n := 1) _ (by omega) (by omega) hb,
    cell_store_out (i := 7) (n := 2) _ (by omega) (by omega) hb,
    cell_store_out (i := 10) (n := 2) _ (by omega) (by omega) hb]

/-- The machine of `lba_2_chs` before its second division: the track in AX,
the sector stored. -/
structure AtTrack (L : DiskLabels) (c t : Pc ω) : Prop where
  ax : t.reg .ax = BitVec.ofNat 16
    ((c.word .ds L.lba_sector).toNat / (c.word .ds L.spt).toNat)
  dx : t.reg .dx = 0#16
  sp : t.reg .sp = c.reg .sp - 16#16
  mem : t.mem = store c.pusha.mem (c.seg .ds) L.Sector 2 (BitVec.ofNat 16
    ((c.word .ds L.lba_sector).toNat % (c.word .ds L.spt).toNat + 1))
  hpc : t.word .ds L.hpc = c.word .ds L.hpc
  seg : t.seg = c.seg
  high : t.high = c.high
  issued : t.issued = c.issued

/-- The rest of `lba_2_chs` after that division. -/
def stored_chs (L : DiskLabels) (b : Pc ω) : Pc ω :=
  ((b.put16 .ds L.Cylinder (b.reg .ax)).put8 .ds L.Head (b.low8 .dx)).popa.ret

/-- The save at the top of a disk routine leaves the cells alone. -/
theorem pusha_cells
    (hoff : Off (Cells L (c.seg .ds)) (c.seg .ss) (c.reg .sp + 2#16) 18) :
    ∀ b, Cells L (c.seg .ds) b → c.pusha.mem b = c.mem b := by
  intro b hb
  refine c.pusha_mem fun hu => hoff b ?_ hb
  exact hu.of_add (j := 2)

/-- The first division, by a number that is not zero. -/
theorem lba_2_chs_track (hs : c.word .ds L.spt ≠ 0#16)
    (hoff : Off (Cells L (c.seg .ds)) (c.seg .ss) (c.reg .sp + 2#16) 18) :
    ∃ t, AtTrack L c t ∧ lba_2_chs L c
      = (div_word L.hpc t >>= fun b => .ok (stored_chs L b)) := by
  have hcells := pusha_cells hoff
  obtain ⟨s, hsv⟩ : ∃ s, c.word .ds L.spt = s := ⟨_, rfl⟩
  obtain ⟨l, hlv⟩ : ∃ l, c.word .ds L.lba_sector = l := ⟨_, rfl⟩
  rw [hsv] at hs
  have hps : load c.pusha.mem (c.seg .ds) L.spt 2 = s :=
    (cell_congr (i := 3) (n := 2) (by omega) (by omega) hcells).trans hsv
  have hpl : load c.pusha.mem (c.seg .ds) L.lba_sector 2 = l :=
    (cell_congr (i := 1) (n := 2) (by omega) (by omega) hcells).trans hlv
  obtain ⟨a, ha, aax, adx, aside⟩ := div_word_spec
    (c := (c.pusha.set .dx 0#16).get16 .ax .ds L.lba_sector) (o := L.spt)
    rfl hpl hps hs
  obtain ⟨t, ht⟩ : ∃ t, ((a.set .dx (a.reg .dx + 1#16)).put16 .ds L.Sector
      (a.reg .dx + 1#16)).set .dx 0#16 = t := ⟨_, rfl⟩
  have htseg : t.seg = c.seg := by
    rw [← ht]
    exact aside.seg
  have htmem : t.mem = store c.pusha.mem (c.seg .ds) L.Sector 2
      (BitVec.ofNat 16 (l.toNat % s.toNat + 1)) := by
    rw [BitVec.ofNat_add, ← adx, ← ht]
    show store a.mem (a.seg .ds) _ _ _ = _
    rw [aside.mem, aside.seg]
    rfl
  refine ⟨t, ⟨?_, ?_, ?_, ?_, ?_, htseg, ?_, ?_⟩, ?_⟩
  · rw [hlv, hsv, ← aax, ← ht]
    rfl
  · rw [← ht]
    rfl
  · rw [← c.pusha_sp, ← ht]
    exact aside.reg .sp (by decide) (by decide)
  · rw [hlv, hsv]
    exact htmem
  · unfold word
    rw [htmem, htseg, DiskLabels.Sector, DiskLabels.hpc,
      cell_store_far (n := 2) _ _ (by omega) (by omega) (by omega) (by omega)]
    exact cell_congr (i := 5) (n := 2) (by omega) (by omega) hcells
  · rw [← ht]
    exact aside.high
  · rw [← ht]
    exact aside.issued
  · show (div_word L.spt _ >>= _) = _
    rw [ha]
    show (div_word L.hpc (((a.set .dx (a.reg .dx + 1#16)).put16 .ds L.Sector
      (a.reg .dx + 1#16)).set .dx 0#16) >>= _) = _
    rw [ht]
    rfl

/-- `lba_2_chs`, with two divisors that are not zero and its stack clear of
the cells. -/
theorem lba_2_chs_spec (hs : c.word .ds L.spt ≠ 0#16)
    (hh : c.word .ds L.hpc ≠ 0#16)
    (hoff : Off (Cells L (c.seg .ds)) (c.seg .ss) (c.reg .sp + 2#16) 18) :
    ∃ d, lba_2_chs L c = .ok d
      ∧ c.Returns (Cells L (c.seg .ds)) 16 d ∧ Converted L c d
      ∧ d.seg = c.seg ∧ d.high = c.high ∧ d.issued = c.issued := by
  have hcells := pusha_cells hoff
  obtain ⟨t, at', hrun⟩ := lba_2_chs_track hs hoff
  obtain ⟨s, hsv⟩ : ∃ s, c.word .ds L.spt = s := ⟨_, rfl⟩
  obtain ⟨h, hhv⟩ : ∃ h, c.word .ds L.hpc = h := ⟨_, rfl⟩
  obtain ⟨l, hlv⟩ : ∃ l, c.word .ds L.lba_sector = l := ⟨_, rfl⟩
  rw [hhv] at hh
  have hps : load c.pusha.mem (c.seg .ds) L.spt 2 = s :=
    (cell_congr (i := 3) (n := 2) (by omega) (by omega) hcells).trans hsv
  have hph : load c.pusha.mem (c.seg .ds) L.hpc 2 = h :=
    (cell_congr (i := 5) (n := 2) (by omega) (by omega) hcells).trans hhv
  have hpl : load c.pusha.mem (c.seg .ds) L.lba_sector 2 = l :=
    (cell_congr (i := 1) (n := 2) (by omega) (by omega) hcells).trans hlv
  have htax := at'.ax
  have htmem := at'.mem
  rw [hlv, hsv] at htax htmem
  -- the track by the heads
  obtain ⟨b, hb, bax, bdx, bside⟩ :=
    div_word_spec at'.dx htax (at'.hpc.trans hhv) hh
  have hq : (BitVec.ofNat 16 (l.toNat / s.toNat)).toNat
      = l.toNat / s.toNat := by
    rw [BitVec.toNat_ofNat]
    exact Nat.mod_eq_of_lt (Nat.lt_of_le_of_lt (Nat.div_le_self _ _) l.isLt)
  rw [hq] at bax bdx
  have hbseg : b.seg = c.seg := bside.seg.trans at'.seg
  have hhead : b.low8 .dx = BitVec.ofNat 8 (l.toNat / s.toNat % h.toNat) := by
    unfold low8
    rw [bdx]
    apply BitVec.eq_of_toNat_eq
    rw [BitVec.extractLsb'_toNat, BitVec.toNat_ofNat, BitVec.toNat_ofNat,
      Nat.shiftRight_zero]
    omega
  obtain ⟨d, hd⟩ : ∃ d, (b.put16 .ds L.Cylinder (b.reg .ax)).put8 .ds L.Head
      (b.low8 .dx) = d := ⟨_, rfl⟩
  have hret : stored_chs L b = d.popa.ret := by
    rw [← hd]
    rfl
  rw [hb] at hrun
  have hdseg : d.seg = c.seg := by
    rw [← hbseg, ← hd]
    rfl
  have hdmem : d.mem = chsMem L (c.seg .ds) c.pusha.mem
      (BitVec.ofNat 16 (l.toNat / s.toNat / h.toNat))
      (BitVec.ofNat 16 (l.toNat % s.toNat + 1))
      (BitVec.ofNat 8 (l.toNat / s.toNat % h.toNat)) := by
    unfold chsMem
    rw [← htmem, ← hhead, ← bax, ← bside.mem, ← congrFun hbseg .ds, ← hd]
    rfl
  obtain ⟨hcyl, hhd, hsec, hlba, hspt, hhpc⟩ := @chsMem_cells L (c.seg .ds)
    c.pusha.mem (BitVec.ofNat 16 (l.toNat / s.toNat / h.toNat))
    (BitVec.ofNat 16 (l.toNat % s.toNat + 1))
    (BitVec.ofNat 8 (l.toNat / s.toNat % h.toNat))
  rw [← hdmem] at hcyl hhd hsec hlba hspt hhpc
  have hword : ∀ o, d.popa.ret.word .ds o = load d.mem (c.seg .ds) o 2 := by
    intro o
    unfold word
    rw [ret_seg, popa_seg, hdseg]
    rfl
  have hconv : Converted L c d.popa.ret := by
    refine ⟨?_, ?_, ?_, ?_, ?_, ?_⟩
    · rw [hword, hlv, hsv, hhv, hcyl]
    · unfold byte
      rw [ret_seg, popa_seg, hdseg, hlv, hsv, hhv]
      exact hhd
    · rw [hword, hlv, hsv, hsec]
    · rw [hword, hlba, hpl, hlv]
    · rw [hword, hspt, hps, hsv]
    · rw [hword, hhpc, hph, hhv]
  have hsp : d.reg .sp = c.reg .sp - 16#16 := by
    rw [← at'.sp, ← bside.reg .sp (by decide) (by decide), ← hd]
    rfl
  have hspare : c.pusha.Spares (Cells L (c.seg .ds)) 0 d := by
    intro x hx
    rw [hdmem]
    exact chsMem_out hx.1
  refine ⟨d.popa.ret, hrun.trans (congrArg Except.ok hret), ?_, hconv, hdseg,
    ?_, ?_⟩
  · exact leave_returns (congrFun hdseg .ss) hsp hspare hoff (by decide)
  · rw [ret_high, popa_high, ← at'.high, ← bside.high, ← hd]
    rfl
  · rw [ret_issued, popa_issued, ← at'.issued, ← bside.issued, ← hd]
    rfl

/-- With a head count of zero it stops in the second division. -/
theorem lba_2_chs_zero (hs : c.word .ds L.spt ≠ 0#16)
    (hh : c.word .ds L.hpc = 0#16)
    (hoff : Off (Cells L (c.seg .ds)) (c.seg .ss) (c.reg .sp + 2#16) 18) :
    lba_2_chs L c = .error .divideError := by
  obtain ⟨t, at', hrun⟩ := lba_2_chs_track hs hoff
  rw [hrun, div_word_zero (at'.hpc.trans hh)]
  rfl

-- ================================================ load_boot_drive_params

/-- The bytes of `first_stage_data.asm`, from `boot_drive` on. -/
def Data (L : DiskLabels) (ds : BitVec 16) (b : BitVec 64) : Prop :=
  ∃ k : Nat, k < 143 ∧ b = linear ds (L.boot_drive + BitVec.ofNat 16 k)

theorem Cells.data {b : BitVec 64} (h : Cells L ds b) : Data L ds b := by
  obtain ⟨k, -, hk, hb⟩ := h
  exact ⟨k, by omega, hb⟩

/-- The data is not the BIOS's, and the `n` bytes of stack below `ss:p` are
neither's. -/
structure Placed (own : BitVec 64 → Prop) (L : DiskLabels)
    (ds ss p : BitVec 16) (n : Nat) : Prop where
  data : ∀ b, Data L ds b → ¬ own b
  stack : Off (fun b => own b ∨ Data L ds b) ss p n

theorem Placed.mono {ss p : BitVec 16} {n k : Nat}
    (h : Placed own L ds ss p n) (hk : k ≤ n) : Placed own L ds ss p k :=
  ⟨h.data, h.stack.mono hk⟩

theorem Placed.below {ss p : BitVec 16} {n j : Nat}
    (h : Placed own L ds ss p (n + j)) :
    Placed own L ds ss (p - BitVec.ofNat 16 j) n :=
  ⟨h.data, h.stack.below⟩

/-- The stack is clear of the BIOS's bytes and of the cells. -/
theorem Placed.off {ss p : BitVec 16} {n : Nat}
    (h : Placed own L ds ss p n) : Off (ownDisk own L ds) ss p n :=
  fun b hu hb => h.stack b hu (hb.imp id Cells.data)

theorem Placed.off_cells {ss p : BitVec 16} {n : Nat}
    (h : Placed own L ds ss p n) : Off (Cells L ds) ss p n :=
  fun b hu hb => h.stack b hu (Or.inr hb.data)

/-- A byte of the data stays through a service and whatever the stack sees
up to `n` bytes down. -/
theorem Placed.fixed {n : Nat} {b : BitVec 64}
    (h : Placed own L (c.seg .ds) (c.seg .ss) (c.reg .sp) n)
    (hb : Data L (c.seg .ds) b) : c.Fixed own n b :=
  ⟨h.data b hb, fun hu => h.stack b hu (Or.inr hb)⟩

/-- The answer to INT 13h, AH = 08h: the highest head in DH, the sectors of
a track in the six low bits of CX. -/
structure Answer (own : BitVec 64 → Prop) (depth : Nat) (h : BitVec 8)
    (s : BitVec 6) (c d : Pc ω) : Prop where
  head : d.high8 .dx = h
  sectors : d.reg .cx &&& 0x3F#16 = s.setWidth 16
  sp : d.reg .sp = c.reg .sp
  ds : d.seg .ds = c.seg .ds
  ss : d.seg .ss = c.seg .ss
  mem : c.Spares own depth d

/-- A BIOS that reports this geometry of the drive. -/
def Reports (B : Bios ω) (own : BitVec 64 → Prop) (depth : Nat)
    (drive h : BitVec 8) (s : BitVec 6) : Prop :=
  ∀ c : Pc ω, c.high8 .ax = 0x8#8 → c.low8 .dx = drive →
    Answer own depth h s c (B 0x13#8 c)

/-- Memory with the two geometry cells written, the head count in the upper
byte of its word. -/
def paramsMem (L : DiskLabels) (ds : BitVec 16) (m : Mem) (heads : BitVec 8)
    (sectors : BitVec 16) : Mem :=
  store (store (store m ds L.hpc 2 0#16) ds (L.hpc + 1#16) 1 heads) ds L.spt 2
    sectors

theorem paramsMem_cells (m : Mem) (heads : BitVec 8) (sectors : BitVec 16) :
    let m' := paramsMem L ds m heads sectors
    load m' ds L.hpc 2 = heads ++ 0#8
      ∧ load m' ds L.spt 2 = sectors
      ∧ load m' ds L.lba_sector 2 = load m ds L.lba_sector 2 := by
  have hnext : L.hpc + 1#16 = L.boot_drive + BitVec.ofNat 16 6 :=
    BitVec.add_assoc _ _ _
  refine ⟨?_, load_store_self (n := 2) _ _ _ _ (by omega), ?_⟩
  · unfold paramsMem
    rw [DiskLabels.spt, DiskLabels.hpc,
      cell_store_far (n := 2) _ _ (by omega) (by omega) (by omega) (by omega)]
    refine load_eq (n := 2) fun k hk => ?_
    rcases Nat.lt_or_ge k 1 with h0 | h1
    · -- the low byte: only the first store reaches it
      obtain rfl : k = 0 := by omega
      refine (fill_far _ _ _ _ _ (n := 1) ?_).trans ?_
      · simp only [BitVec.toNat_sub, BitVec.toNat_add, BitVec.toNat_ofNat]
        omega
      · refine (fill_at _ _ _ _ (n := 2) (k := 0) (by omega)
          (by omega)).trans ?_
        simp only [Nat.mul_zero, BitVec.extractLsb'_append_eq_right]
        rfl
    · obtain rfl : k = 1 := by omega
      have hat := fill_at (store m ds (L.boot_drive + 5#16) 2 0#16) ds
        (L.boot_drive + 5#16 + 1#16) (fun k => heads.extractLsb' (8 * k) 8)
        (n := 1) (k := 0) (by omega) (by omega)
      rw [BitVec.add_zero] at hat
      refine hat.trans ?_
      exact BitVec.extractLsb'_eq_self.trans
        BitVec.extractLsb'_append_eq_left.symm
  · unfold paramsMem
    rw [hnext, DiskLabels.spt, DiskLabels.hpc, DiskLabels.lba_sector,
      cell_store_far (n := 2) _ _ (by omega) (by omega) (by omega) (by omega),
      cell_store_far (n := 1) _ _ (by omega) (by omega) (by omega) (by omega),
      cell_store_far (n := 2) _ _ (by omega) (by omega) (by omega) (by omega)]

theorem paramsMem_out {heads : BitVec 8} {sectors : BitVec 16}
    {b : BitVec 64} (hb : ¬ Cells L ds b) :
    paramsMem L ds m heads sectors b = m b := by
  have hnext : L.hpc + 1#16 = L.boot_drive + BitVec.ofNat 16 6 :=
    BitVec.add_assoc _ _ _
  unfold paramsMem
  rw [hnext, DiskLabels.spt, DiskLabels.hpc,
    cell_store_out (i := 3) (n := 2) _ (by omega) (by omega) hb,
    cell_store_out (i := 6) (n := 1) _ (by omega) (by omega) hb,
    cell_store_out (i := 5) (n := 2) _ (by omega) (by omega) hb]

/-- What `load_boot_drive_params` leaves: 256 times the head count. -/
structure Loaded (L : DiskLabels) (h : BitVec 8) (s : BitVec 6)
    (c d : Pc ω) : Prop where
  hpc : d.word .ds L.hpc = (h + 1#8) ++ 0#8
  spt : d.word .ds L.spt = s.setWidth 16
  lba : d.word .ds L.lba_sector = c.word .ds L.lba_sector
  ds : d.seg .ds = c.seg .ds

theorem load_boot_drive_params_spec {h : BitVec 8} {s : BitVec 6}
    (hB : Reports B own depth (c.byte .ds L.boot_drive) h s)
    (hplaced : Placed own L (c.seg .ds) (c.seg .ss) (c.reg .sp + 2#16)
      (depth + 18)) (hdepth : depth + 18 ≤ 65536) :
    ∃ d, load_boot_drive_params B L c = .ok d
      ∧ c.Returns (ownDisk own L (c.seg .ds)) (depth + 16) d
      ∧ Loaded L h s c d := by
  have hin : Placed own L (c.seg .ds) (c.seg .ss) (c.pusha.reg .sp) depth := by
    have hsp : c.pusha.reg .sp = c.reg .sp + 2#16 - 18#16 := by
      rw [pusha_sp]
      apply BitVec.eq_of_toNat_eq
      simp only [BitVec.toNat_sub, BitVec.toNat_add, BitVec.toNat_ofNat]
      omega
    rw [hsp]
    exact hplaced.below (j := 18)
  have hsaved : ∀ b, Data L (c.seg .ds) b → c.pusha.mem b = c.mem b := by
    intro b hb
    refine c.pusha_mem fun hu => hplaced.stack b ?_ (Or.inr hb)
    exact (hu.of_add (j := 2)).mono (by omega)
  have hdrive : c.pusha.byte .ds L.boot_drive = c.byte .ds L.boot_drive := by
    refine hsaved _ ⟨0, by omega, ?_⟩
    rw [BitVec.add_zero]
    rfl
  -- the machine at the `int`, and the answer
  obtain ⟨p, hp⟩ : ∃ p, ((((c.pusha.set .di 0#16).setSeg .es 0#16).setHigh8
      .ax 0x8#8).reads .ds L.boot_drive 1).setLow8 .dx
      (c.pusha.byte .ds L.boot_drive) = p := ⟨_, rfl⟩
  have hax : p.high8 .ax = 0x8#8 := by
    rw [← hp]
    exact BitVec.extractLsb'_append_eq_left
  have hdx : p.low8 .dx = c.byte .ds L.boot_drive := by
    rw [← hp, ← hdrive]
    exact BitVec.extractLsb'_append_eq_right
  have hpsp : p.reg .sp = c.pusha.reg .sp := by
    rw [← hp]
    rfl
  have hpmem : p.mem = c.pusha.mem := by
    rw [← hp]
    rfl
  have hpseg : p.seg .ds = c.seg .ds ∧ p.seg .ss = c.seg .ss := by
    rw [← hp]
    exact ⟨rfl, rfl⟩
  obtain ⟨q, hq⟩ : ∃ q, p.int B 0x13#8 = q := ⟨_, rfl⟩
  have hans : Answer own depth h s p q := by
    have hans := hB p hax hdx
    rw [← hq]
    exact ⟨hans.head, hans.sectors, hans.sp, hans.ds, hans.ss, hans.mem⟩
  have hqds : q.seg .ds = c.seg .ds := hans.ds.trans hpseg.1
  have hqss : q.seg .ss = c.seg .ss := hans.ss.trans hpseg.2
  have hqmem : c.pusha.Spares own depth q := by
    intro b hb
    rw [hans.mem b (hb.congr hpseg.2 hpsp), hpmem]
  obtain ⟨d, hd⟩ : ∃ d, ((((q.setHigh8 .dx (q.high8 .dx + 1#8)).put16 .ds L.hpc
      0x0#16).put8 .ds (L.hpc + 1#16) (h + 1#8)).set .cx
      (q.reg .cx &&& 0x3F#16)).put16 .ds L.spt (q.reg .cx &&& 0x3F#16) = d :=
    ⟨_, rfl⟩
  have hrun : load_boot_drive_params B L c = .ok d.popa.ret := by
    rw [← hd, ← hans.head, ← hq, ← hp]
    unfold load_boot_drive_params
    simp only [high8, setHigh8, put16_reg, put8_reg, set_reg, if_true,
      reduceCtorEq, if_false, BitVec.extractLsb'_append_eq_left]
    rfl
  have hdmem : d.mem = paramsMem L (c.seg .ds) q.mem (h + 1#8)
      (s.setWidth 16) := by
    rw [← hans.sectors, ← hqds, ← hd]
    rfl
  have hdseg : d.seg = q.seg := by
    rw [← hd]
    rfl
  have hdsp : d.reg .sp = c.reg .sp - 16#16 := by
    rw [← c.pusha_sp, ← hpsp, ← hans.sp, ← hd]
    rfl
  obtain ⟨hhpc, hspt, hlba⟩ := @paramsMem_cells L (c.seg .ds) q.mem (h + 1#8)
    (s.setWidth 16)
  rw [← hdmem] at hhpc hspt hlba
  have hword : ∀ o, d.popa.ret.word .ds o = load d.mem (c.seg .ds) o 2 := by
    intro o
    unfold word
    rw [ret_seg, popa_seg, hdseg, hqds]
    rfl
  refine ⟨d.popa.ret, hrun, ?_, (hword _).trans hhpc, (hword _).trans hspt,
    ?_, ?_⟩
  · refine leave_returns ?_ hdsp ?_ (hplaced.mono (by omega)).off hdepth
    · rw [hdseg]
      exact hqss
    · intro b hb
      rw [hdmem, paramsMem_out fun hc => hb.1 (Or.inr hc)]
      exact hqmem b ⟨fun ho => hb.1 (Or.inl ho), hb.2⟩
  · rw [hword, hlba]
    refine cell_congr (i := 1) (n := 2) (by omega) (by omega) fun b hb => ?_
    rw [← hsaved b hb.data]
    exact hqmem b (hin.fixed (c := c.pusha) hb.data)
  · rw [ret_seg, popa_seg, hdseg]
    exact hqds

-- ====================================================== the stored address

/-- The address in the cells. -/
def chsAddress (L : DiskLabels) (c : Pc ω) : Geometry.Address where
  cylinder := (c.word .ds L.Cylinder).toNat
  head := (c.byte .ds L.Head).toNat
  sector := (c.word .ds L.Sector).toNat

/-- The drive the BIOS reported: heads up to `h`, `s` sectors a track. -/
def driveGeometry (h : BitVec 8) (s : BitVec 6) (hs : s ≠ 0#6) :
    Geometry where
  heads := h.toNat + 1
  sectors := s.toNat
  heads_pos := Nat.succ_pos _
  sectors_pos := Nat.pos_of_ne_zero fun h0 => hs (BitVec.eq_of_toNat_eq h0)

/-- `lba_2_chs` returns, and leaves the address of its sector number. -/
def Addresses (g : Geometry) (L : DiskLabels) (c : Pc ω) : Prop :=
  ∃ d, lba_2_chs L c = .ok d ∧ g.Valid (chsAddress L d)
    ∧ g.number (chsAddress L d) = (c.word .ds L.lba_sector).toNat

/-- The address a conversion leaves, in numbers. -/
theorem Converted.address (h : Converted L c d) :
    chsAddress L d =
      let l := (c.word .ds L.lba_sector).toNat
      let s := (c.word .ds L.spt).toNat
      let n := (c.word .ds L.hpc).toNat
      ⟨l / s / n, l / s % n % 256, (l % s + 1) % 65536⟩ := by
  have hl := (c.word .ds L.lba_sector).isLt
  have hquot : (c.word .ds L.lba_sector).toNat / (c.word .ds L.spt).toNat
      / (c.word .ds L.hpc).toNat < 65536 :=
    Nat.lt_of_le_of_lt (Nat.le_trans (Nat.div_le_self _ _)
      (Nat.div_le_self _ _)) hl
  unfold chsAddress
  rw [h.cylinder, h.head, h.sector, BitVec.toNat_ofNat, BitVec.toNat_ofNat,
    BitVec.toNat_ofNat, Nat.mod_eq_of_lt hquot]

/-- Dividing by 256 times too many heads is right on the first cylinder
only. -/
theorem first_cylinder_iff {q n : Nat} (hn : 0 < n) (hle : n ≤ 256) :
    (q / (n * 256) = q / n ∧ q % (n * 256) % 256 = q % n) ↔ q < n := by
  constructor
  · rintro ⟨hcyl, -⟩
    rw [← Nat.div_div_eq_div_mul] at hcyl
    have hzero : q / n = 0 := by
      generalize q / n = x at hcyl ⊢
      omega
    rcases Nat.div_eq_zero_iff.1 hzero with h | h
    · omega
    · exact h
  · intro hq
    have hq' : q < n * 256 := by omega
    rw [Nat.div_eq_of_lt hq, Nat.div_eq_of_lt hq', Nat.mod_eq_of_lt hq',
      Nat.mod_eq_of_lt hq]
    exact ⟨rfl, by omega⟩

theorem addresses_iff {h : BitVec 8} {s : BitVec 6} (hs : s ≠ 0#6)
    (hspt : c.word .ds L.spt = s.setWidth 16)
    (hhpc : c.word .ds L.hpc = (h + 1#8) ++ 0#8)
    (hoff : Off (Cells L (c.seg .ds)) (c.seg .ss) (c.reg .sp + 2#16) 18) :
    Addresses (driveGeometry h s hs) L c ↔
      h ≠ 255#8 ∧ (c.word .ds L.lba_sector).toNat / s.toNat ≤ h.toNat := by
  have hs0 : 0 < s.toNat :=
    Nat.pos_of_ne_zero fun h0 => hs (BitVec.eq_of_toNat_eq h0)
  have hst : (c.word .ds L.spt).toNat = s.toNat := by
    rw [hspt, BitVec.toNat_setWidth]
    exact Nat.mod_eq_of_lt (by omega)
  have hsne : c.word .ds L.spt ≠ 0#16 := by
    intro h0
    rw [h0] at hst
    exact absurd hst (by simp; omega)
  have hht : (c.word .ds L.hpc).toNat = (h.toNat + 1) % 256 * 256 := by
    rw [hhpc, BitVec.toNat_append, Nat.shiftLeft_eq, BitVec.toNat_add]
    simp
  by_cases hlast : h = 255#8
  · -- the divisor is zero
    have hzero : c.word .ds L.hpc = 0#16 := by
      rw [hhpc, hlast]
      decide
    constructor
    · rintro ⟨d, hd, -⟩
      rw [lba_2_chs_zero hsne hzero hoff] at hd
      cases hd
    · exact fun hr => absurd hlast hr.1
  · have hlt : h.toNat + 1 < 256 := by
      have hne : h.toNat ≠ 255 := fun h0 => hlast (BitVec.eq_of_toNat_eq h0)
      omega
    rw [Nat.mod_eq_of_lt hlt] at hht
    have hhne : c.word .ds L.hpc ≠ 0#16 := by
      intro h0
      rw [h0] at hht
      exact absurd hht (by simp)
    obtain ⟨d, hd, -, hconv, -⟩ := lba_2_chs_spec hsne hhne hoff
    have haddr := hconv.address
    simp only [hst, hht] at haddr
    have hlaw : Addresses (driveGeometry h s hs) L c ↔ chsAddress L d
        = (driveGeometry h s hs).address (c.word .ds L.lba_sector).toNat := by
      rw [← Geometry.eq_address]
      constructor
      · rintro ⟨e, he, hlaw⟩
        rw [hd] at he
        cases he
        exact hlaw
      · exact fun hlaw => ⟨d, hd, hlaw⟩
    have hsec : ((c.word .ds L.lba_sector).toNat % s.toNat + 1) % 65536
        = (c.word .ds L.lba_sector).toNat % s.toNat + 1 := by
      have hmod := Nat.mod_lt (c.word .ds L.lba_sector).toNat hs0
      exact Nat.mod_eq_of_lt (by omega)
    rw [hlaw, haddr, hsec]
    show Geometry.Address.mk _ _ _ = Geometry.Address.mk _ _ _ ↔ _
    rw [Geometry.Address.mk.injEq]
    have hfirst := first_cylinder_iff (n := h.toNat + 1)
      (q := (c.word .ds L.lba_sector).toNat / s.toNat) (by omega) (by omega)
    constructor
    · rintro ⟨hcyl, hhead, -⟩
      exact ⟨hlast, Nat.le_of_lt_succ (hfirst.1 ⟨hcyl, hhead⟩)⟩
    · rintro ⟨-, hle⟩
      obtain ⟨hcyl, hhead⟩ := hfirst.2 (Nat.lt_succ_of_le hle)
      exact ⟨hcyl, hhead, rfl⟩

/-- After `load_boot_drive_params` the cells hold a geometry with which
`lba_2_chs` finds a sector exactly when it lies on the first cylinder and
the drive has fewer than 256 heads. -/
theorem geometry_iff {h : BitVec 8} {s : BitVec 6} (hs : s ≠ 0#6)
    (hB : Reports B own depth (c.byte .ds L.boot_drive) h s)
    (hplaced : Placed own L (c.seg .ds) (c.seg .ss) (c.reg .sp + 2#16)
      (depth + 18)) (hdepth : depth + 18 ≤ 65536) :
    ∃ d, load_boot_drive_params B L c = .ok d
      ∧ c.Returns (ownDisk own L (c.seg .ds)) (depth + 16) d
      ∧ ∀ e : Pc ω, e.word .ds L.spt = d.word .ds L.spt →
        e.word .ds L.hpc = d.word .ds L.hpc →
        Off (Cells L (e.seg .ds)) (e.seg .ss) (e.reg .sp + 2#16) 18 →
        (Addresses (driveGeometry h s hs) L e ↔
          h ≠ 255#8
            ∧ (e.word .ds L.lba_sector).toNat / s.toNat ≤ h.toNat) := by
  obtain ⟨d, hd, hret, hload⟩ := load_boot_drive_params_spec hB hplaced hdepth
  refine ⟨d, hd, hret, fun e hspt hhpc hoff => ?_⟩
  exact addresses_iff hs (hspt.trans hload.spt) (hhpc.trans hload.hpc) hoff

/-- The labels where the assembler puts them. -/
def diskLabels : DiskLabels where
  boot_drive := 0x7C4E#16
  back := fun
    | .chs => 0x7D60#16
    | .dot => 0x7D7D#16
    | .errorDot => 0x7D93#16
    | .errorMsg => 0x7D99#16

/-- A BIOS that knows one drive, of 16 heads and 63 sectors a track. -/
def reportBios : Bios Unit := fun _ c =>
  (c.set .dx (0x0F#8 ++ c.low8 .dx)).set .cx 0x3F#16

theorem reportBios_reports (drive : BitVec 8) :
    Reports reportBios (fun _ => False) 0 drive 15#8 63#6 :=
  fun _ _ _ => ⟨BitVec.extractLsb'_append_eq_left,
    (show 0x3F#16 &&& 0x3F#16 = (63#6).setWidth 16 by decide), rfl, rfl, rfl,
    fun _ _ => rfl⟩

/-- The machine at the call, with the stack below 0xB000. -/
def paramsPc : Pc Unit where
  reg := fun r => if r = .sp then 0xAFFE#16 else 0#16
  high := fun _ => 0#16
  seg := fun _ => 0#16
  carry := false
  eflags := 0#32
  ip := 0#16
  mem := fun _ => 0#8
  loads := []
  issued := []
  bios := ()

theorem placed_diskLabels {n : Nat} (hn : n ≤ 1024) :
    Placed (fun _ => False) diskLabels 0#16 0#16 0xB000#16 n := by
  refine ⟨fun _ _ => not_false, ?_⟩
  rintro b hu (hfalse | ⟨k, hk, rfl⟩)
  · exact hfalse
  · have hb := (under_iff (by simp; omega)).1 hu
    rw [linear_toNat, BitVec.toNat_add, BitVec.toNat_ofNat] at hb
    simp only [diskLabels, BitVec.toNat_ofNat] at hb
    omega

theorem geometry_iff_sample : ∃ d,
    load_boot_drive_params reportBios diskLabels paramsPc = .ok d
      ∧ paramsPc.Returns (ownDisk (fun _ => False) diskLabels 0#16) 16 d
      ∧ ∀ e : Pc Unit,
        e.word .ds diskLabels.spt = d.word .ds diskLabels.spt →
        e.word .ds diskLabels.hpc = d.word .ds diskLabels.hpc →
        Off (Cells diskLabels (e.seg .ds)) (e.seg .ss) (e.reg .sp + 2#16) 18 →
        (Addresses (driveGeometry 15#8 63#6 (by decide)) diskLabels e ↔
          15#8 ≠ 255#8
            ∧ (e.word .ds diskLabels.lba_sector).toNat / (63#6).toNat
              ≤ (15#8).toNat) :=
  geometry_iff (by decide) (reportBios_reports _)
    (placed_diskLabels (by omega)) (by omega)

-- ================================================== what INT 13h is handed

/-- The cylinder, head and sector INT 13h takes from CX and DH. -/
def chsOf (cx : BitVec 16) (dh : BitVec 8) : Geometry.Address where
  cylinder := (cx.extractLsb' 8 8).toNat
    + 256 * (cx.extractLsb' 0 8 >>> 6).toNat
  head := dh.toNat
  sector := (cx.extractLsb' 0 8 &&& 63#8).toNat

/-- The registers the loop makes of an address: the cylinder is shifted out
of its two upper bits. -/
theorem chsOf_shifted {c s : Nat} (dh : BitVec 8) (hs : s < 64) :
    chsOf (BitVec.ofNat 16 c <<< 8 ||| BitVec.ofNat 16 s) dh
      = ⟨c % 256, dh.toNat, s⟩ := by
  obtain ⟨cx, hcx⟩ :
      ∃ cx, BitVec.ofNat 16 c <<< 8 ||| BitVec.ofNat 16 s = cx := ⟨_, rfl⟩
  have hval : cx.toNat = c % 256 * 256 + s := by
    rw [← hcx, BitVec.toNat_or, BitVec.toNat_shiftLeft, BitVec.toNat_ofNat,
      BitVec.toNat_ofNat, Nat.shiftLeft_eq, Nat.mod_eq_of_lt (a := s) (by omega)]
    have hhigh : c % 2 ^ 16 * 2 ^ 8 % 2 ^ 16 = 2 ^ 8 * (c % 256) := by omega
    rw [hhigh, ← Nat.two_pow_add_eq_or_of_lt (by omega), Nat.mul_comm]
  have hch : (cx.extractLsb' 8 8).toNat = c % 256 := by
    rw [BitVec.extractLsb'_toNat, hval, Nat.shiftRight_eq_div_pow]
    omega
  have hcl : (cx.extractLsb' 0 8).toNat = s := by
    rw [BitVec.extractLsb'_toNat, hval, Nat.shiftRight_zero]
    omega
  have hhigh : (cx.extractLsb' 0 8 >>> 6).toNat = 0 := by
    rw [BitVec.toNat_ushiftRight, hcl, Nat.shiftRight_eq_div_pow]
    exact Nat.div_eq_of_lt hs
  have hlow : (cx.extractLsb' 0 8 &&& 63#8).toNat = s := by
    rw [BitVec.toNat_and, hcl]
    exact (Nat.and_two_pow_sub_one_eq_mod s 6).trans (Nat.mod_eq_of_lt hs)
  rw [hcx]
  unfold chsOf
  rw [hch, hhigh, hlow, Nat.mul_zero, Nat.add_zero]

/-- The machine at the `int` of a round. -/
structure Addressed (L : DiskLabels) (c d : Pc ω) : Prop where
  ax : d.reg .ax = 0x201#16
  cx : d.reg .cx = d.word .ds L.Cylinder <<< 8 ||| d.word .ds L.Sector
  dh : d.high8 .dx = d.byte .ds L.Head
  dl : d.low8 .dx = c.low8 .dx
  reg : ∀ r, r ≠ .ax → r ≠ .cx → r ≠ .dx → d.reg r = c.reg r
  high : d.high = c.high
  seg : d.seg = c.seg
  issued : d.issued = c.issued
  mem : c.Spares (Cells L (c.seg .ds)) 18 d
  conv : Converted L c d

/-- The three cells read may be looked at in another machine. -/
theorem Converted.congr (h : Converted L e d)
    (hw : ∀ i, 1 ≤ i → i + 2 ≤ 7 →
      e.word .ds (L.boot_drive + BitVec.ofNat 16 i)
        = c.word .ds (L.boot_drive + BitVec.ofNat 16 i)) :
    Converted L c d := by
  have hlba : e.word .ds L.lba_sector = c.word .ds L.lba_sector :=
    hw 1 (by omega) (by omega)
  have hspt : e.word .ds L.spt = c.word .ds L.spt := hw 3 (by omega) (by omega)
  have hhpc : e.word .ds L.hpc = c.word .ds L.hpc := hw 5 (by omega) (by omega)
  obtain ⟨h1, h2, h3, h4, h5, h6⟩ := h
  rw [hlba] at h1 h2 h3 h4
  rw [hspt] at h1 h2 h3 h5
  rw [hhpc] at h1 h2 h6
  exact ⟨h1, h2, h3, h4, h5, h6⟩

/-- The top of a round, with two divisors that are not zero. -/
theorem sector_address_spec (hs : c.word .ds L.spt ≠ 0#16)
    (hh : c.word .ds L.hpc ≠ 0#16)
    (hoff : Off (Cells L (c.seg .ds)) (c.seg .ss) (c.reg .sp) 18) :
    ∃ d, sector_address L c = .ok d ∧ Addressed L c d := by
  have hpush : ∀ b, Cells L (c.seg .ds) b →
      (c.push (L.back .chs)).mem b = c.mem b := fun b hb =>
    c.push_mem _ fun hu => hoff b (hu.mono (by omega)) hb
  have hw : ∀ i, 1 ≤ i → i + 2 ≤ 7 →
      (c.push (L.back .chs)).word .ds (L.boot_drive + BitVec.ofNat 16 i)
        = c.word .ds (L.boot_drive + BitVec.ofNat 16 i) :=
    fun i hi hi' => cell_congr (n := 2) hi (by omega) hpush
  have hoff' : Off (Cells L ((c.push (L.back .chs)).seg .ds))
      ((c.push (L.back .chs)).seg .ss)
      ((c.push (L.back .chs)).reg .sp + 2#16) 18 := by
    rw [push_sp, BitVec.sub_add_cancel]
    exact hoff
  obtain ⟨d, hd, hret, hconv, hseg, hhigh, hissued⟩ := lba_2_chs_spec
    (c := c.push (L.back .chs)) ((hw 3 (by omega) (by omega)).trans_ne hs)
    ((hw 5 (by omega) (by omega)).trans_ne hh) hoff'
  obtain ⟨hcall, hsteady⟩ := call_steady hd hret
  have hconv' : Converted L c d := hconv.congr hw
  have hax : (0x2#8 ++ d.low8 .ax).extractLsb' 8 8 ++ 0x1#8 = 0x201#16 := by
    rw [BitVec.extractLsb'_append_eq_left]
    rfl
  unfold sector_address
  rw [hcall]
  refine ⟨_, rfl, ?_⟩
  refine ⟨hax, rfl, ?_, ?_, ?_, hhigh, hseg, hissued, hsteady.mem, ?_⟩
  · exact BitVec.extractLsb'_append_eq_left
  · refine BitVec.extractLsb'_append_eq_right.trans ?_
    exact congrArg (BitVec.extractLsb' 0 8) (congrFun hsteady.reg .dx)
  · intro r hax' hcx hdx
    refine Eq.trans ?_ (congrFun hsteady.reg r)
    simp only [setHigh8, setLow8, get16, reads_reg, set_reg, if_neg hax',
      if_neg hcx, if_neg hdx]
  · exact ⟨hconv'.cylinder, hconv'.head, hconv'.sector, hconv'.lba,
      hconv'.spt, hconv'.hpc⟩

/-- The geometry cells hold a geometry that INT 13h can be handed. -/
structure Drive (g : Geometry) (L : DiskLabels) (c : Pc ω) : Prop where
  spt : (c.word .ds L.spt).toNat = g.sectors
  hpc : (c.word .ds L.hpc).toNat = g.heads
  sectors : g.sectors ≤ 63
  heads : g.heads ≤ 256

theorem Drive.spt_ne {g : Geometry} (h : Drive g L c) :
    c.word .ds L.spt ≠ 0#16 := by
  intro h0
  have hpos := g.sectors_pos
  rw [← h.spt, h0] at hpos
  exact absurd hpos (by decide)

theorem Drive.hpc_ne {g : Geometry} (h : Drive g L c) :
    c.word .ds L.hpc ≠ 0#16 := by
  intro h0
  have hpos := g.heads_pos
  rw [← h.hpc, h0] at hpos
  exact absurd hpos (by decide)

/-- The cylinder of the sector whose turn it is. -/
def cylinder (g : Geometry) (L : DiskLabels) (c : Pc ω) : Nat :=
  (g.address (c.word .ds L.lba_sector).toNat).cylinder

/-- What INT 13h reads off the registers, in terms of the address. -/
theorem Addressed.decoded {g : Geometry} (h : Addressed L c d)
    (hg : Drive g L c) :
    let a := g.address (c.word .ds L.lba_sector).toNat
    chsOf (d.reg .cx) (d.high8 .dx) = ⟨a.cylinder % 256, a.head, a.sector⟩ := by
  have hmod := Nat.mod_lt (c.word .ds L.lba_sector).toNat g.sectors_pos
  have hhead := Nat.mod_lt ((c.word .ds L.lba_sector).toNat / g.sectors)
    g.heads_pos
  have hsec := hg.sectors
  have hheads := hg.heads
  rw [h.cx, h.dh, h.conv.cylinder, h.conv.sector, h.conv.head, hg.spt, hg.hpc,
    chsOf_shifted _ (by omega), BitVec.toNat_ofNat]
  exact congrArg (Geometry.Address.mk _ · _)
    (Nat.mod_eq_of_lt (Nat.lt_of_lt_of_le hhead hheads))

/-- INT 13h is handed the address of the sector. -/
def Encodes (g : Geometry) (L : DiskLabels) (c d : Pc ω) : Prop :=
  g.Valid (chsOf (d.reg .cx) (d.high8 .dx))
    ∧ g.number (chsOf (d.reg .cx) (d.high8 .dx))
      = (c.word .ds L.lba_sector).toNat

theorem encodes_iff {g : Geometry} (h : Addressed L c d)
    (hg : Drive g L c) : Encodes g L c d ↔ cylinder g L c < 256 := by
  unfold Encodes cylinder
  rw [Geometry.eq_address, h.decoded hg]
  show Geometry.Address.mk _ _ _ = Geometry.Address.mk _ _ _ ↔ _
  rw [Geometry.Address.mk.injEq]
  constructor
  · rintro ⟨hcyl, -⟩
    have hlt := Nat.mod_lt (g.address (c.word .ds L.lba_sector).toNat).cylinder
      (show 0 < 256 by decide)
    exact Nat.lt_of_le_of_lt (Nat.le_of_eq hcyl.symm) hlt
  · exact fun hlt => ⟨Nat.mod_eq_of_lt hlt, rfl, rfl⟩

/-- Addresses that are handed over whole differ for different sectors. -/
theorem Encodes.inj {g : Geometry} {d' c' : Pc ω} (h : Encodes g L c d)
    (h' : Encodes g L c' d')
    (heq : d.reg .cx = d'.reg .cx ∧ d.high8 .dx = d'.high8 .dx) :
    c.word .ds L.lba_sector = c'.word .ds L.lba_sector := by
  apply BitVec.eq_of_toNat_eq
  rw [← h.2, ← h'.2, heq.1, heq.2]

/-- For any two states of one drive, the registers of both address their
sectors, and are told apart when the sectors differ, exactly when both
sectors lie below cylinder 256. -/
theorem encoding_iff {g : Geometry} {c' : Pc ω} (hg : Drive g L c)
    (hg' : Drive g L c')
    (hoff : Off (Cells L (c.seg .ds)) (c.seg .ss) (c.reg .sp) 18)
    (hoff' : Off (Cells L (c'.seg .ds)) (c'.seg .ss) (c'.reg .sp) 18) :
    (∃ d d', sector_address L c = .ok d ∧ sector_address L c' = .ok d'
      ∧ Encodes g L c d ∧ Encodes g L c' d'
      ∧ (c.word .ds L.lba_sector ≠ c'.word .ds L.lba_sector →
        ¬ (d.reg .cx = d'.reg .cx ∧ d.high8 .dx = d'.high8 .dx)))
      ↔ cylinder g L c < 256 ∧ cylinder g L c' < 256 := by
  obtain ⟨d, hd, had⟩ := sector_address_spec hg.spt_ne hg.hpc_ne hoff
  obtain ⟨d', hd', had'⟩ := sector_address_spec hg'.spt_ne hg'.hpc_ne hoff'
  constructor
  · rintro ⟨e, e', he, he', hc, hc', -⟩
    rw [hd] at he
    rw [hd'] at he'
    cases he
    cases he'
    exact ⟨(encodes_iff had hg).1 hc, (encodes_iff had' hg').1 hc'⟩
  · rintro ⟨hlt, hlt'⟩
    have hc := (encodes_iff had hg).2 hlt
    have hc' := (encodes_iff had' hg').2 hlt'
    exact ⟨d, d', hd, hd', hc, hc', fun hne heq => hne (hc.inj hc' heq)⟩

/-- The floppy the data file starts out with. -/
def floppy : Geometry := ⟨2, 18, by decide, by decide⟩

def floppyMem (l : BitVec 16) : Mem :=
  store (store (store (fun _ => 0#8) 0#16 diskLabels.lba_sector 2 l) 0#16
    diskLabels.spt 2 0x12#16) 0#16 diskLabels.hpc 2 0x2#16

/-- A machine with those cells and sector `l` to come. -/
def floppyPc (l : BitVec 16) : Pc Unit :=
  { paramsPc with
    reg := fun r => if r = .sp then 0xB000#16 else 0#16
    mem := floppyMem l }

theorem floppyPc_cells (l : BitVec 16) :
    (floppyPc l).word .ds diskLabels.lba_sector = l
      ∧ (floppyPc l).word .ds diskLabels.spt = 0x12#16
      ∧ (floppyPc l).word .ds diskLabels.hpc = 0x2#16 := by
  refine ⟨?_, ?_, load_store_self (n := 2) _ _ _ _ (by omega)⟩
  · show load (floppyMem l) 0#16 diskLabels.lba_sector 2 = l
    unfold floppyMem
    rw [DiskLabels.hpc, DiskLabels.spt, DiskLabels.lba_sector,
      cell_store_far (n := 2) _ _ (by omega) (by omega) (by omega) (by omega),
      cell_store_far (n := 2) _ _ (by omega) (by omega) (by omega) (by omega)]
    exact load_store_self (n := 2) _ _ _ _ (by omega)
  · show load (floppyMem l) 0#16 diskLabels.spt 2 = 0x12#16
    unfold floppyMem
    rw [DiskLabels.hpc, DiskLabels.spt,
      cell_store_far (n := 2) _ _ (by omega) (by omega) (by omega) (by omega)]
    exact load_store_self (n := 2) _ _ _ _ (by omega)

theorem floppyPc_drive (l : BitVec 16) :
    Drive floppy diskLabels (floppyPc l) := by
  obtain ⟨-, hspt, hhpc⟩ := floppyPc_cells l
  exact ⟨congrArg BitVec.toNat hspt, congrArg BitVec.toNat hhpc, by decide,
    by decide⟩

theorem encoding_iff_sample :
    (∃ d d', sector_address diskLabels (floppyPc 1#16) = .ok d
      ∧ sector_address diskLabels (floppyPc 0x2401#16) = .ok d'
      ∧ Encodes floppy diskLabels (floppyPc 1#16) d
      ∧ Encodes floppy diskLabels (floppyPc 0x2401#16) d'
      ∧ ((floppyPc 1#16).word .ds diskLabels.lba_sector
          ≠ (floppyPc 0x2401#16).word .ds diskLabels.lba_sector →
        ¬ (d.reg .cx = d'.reg .cx ∧ d.high8 .dx = d'.high8 .dx)))
      ↔ cylinder floppy diskLabels (floppyPc 1#16) < 256
        ∧ cylinder floppy diskLabels (floppyPc 0x2401#16) < 256 :=
  encoding_iff (floppyPc_drive _) (floppyPc_drive _)
    (placed_diskLabels (by omega)).off_cells
    (placed_diskLabels (by omega)).off_cells

end BootLoader.FirstStage
