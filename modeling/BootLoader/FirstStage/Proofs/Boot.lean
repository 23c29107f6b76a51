/-
What the first stage leaves at the jump to the second.

# The states in between

Main calls routines that keep all sixteen-bit registers, so between two
calls the machine differs from the last in memory only, and there outside
the data file and the stack (`Calm`). Three calls are different: the disk
is detected, which fills the geometry cells, and two loads.

# The geometry

Whatever BIOS answered, the cells name the sectors of the two stages
(`Names`): on a floppy they are right, and on a disk with the head count
256 times too large they are right for the first cylinder
(`names_first`).

# BX

Nothing sets BX before the loads add it to their offsets. The stages lie
where the jump expects them exactly when the BIOS left zero there
(`first_stage_boots_iff`).
-/
import BootLoader.FirstStage.Boot
import BootLoader.FirstStage.Proofs.ReadSectors

namespace BootLoader.FirstStage

open FlatMemory Segment RealMode Pc

variable {ω : Type _} {B : Bios ω} {L : BootLabels} {own : BitVec 64 → Prop}
  {depth fuel bound n : Nat} {c d e : Pc ω} {str : List (BitVec 8)}

-- ============================================================ quiet calls

/-- A call that keeps registers and memory, and asks for no sector. -/
structure Calm (own : BitVec 64 → Prop) (n : Nat) (c d : Pc ω) : Prop where
  steady : c.Steady own n d
  ds : d.seg .ds = c.seg .ds
  asked : requests d = requests c

theorem Calm.trans (h : Calm own n c d) (h' : Calm own n d e) :
    Calm own n c e :=
  ⟨h.steady.trans h'.steady, h'.ds.trans h.ds, h'.asked.trans h.asked⟩

theorem Calm.mono {k : Nat} (h : Calm own k c d) (hk : k ≤ n) :
    Calm own n c d := ⟨h.steady.mono hk, h.ds, h.asked⟩

/-- A byte of the data through a quiet call. -/
theorem Calm.data (h : Calm own n c d)
    (hplaced : Placed own L.toDiskLabels (c.seg .ds) (c.seg .ss) (c.reg .sp) n)
    {b : BitVec 64} (hb : Data L.toDiskLabels (c.seg .ds) b) :
    d.mem b = c.mem b := h.steady.mem b (hplaced.fixed hb)

/-- One service between `pusha` and `popa`. -/
theorem service_calm {i : BitVec 8} {back : BitVec 16} {p : Pc ω}
    {f : Pc ω → Outcome (Pc ω)}
    (hf : f (c.push back) = .ok (p.int B i).popa.ret)
    (hreg : p.reg .sp = (c.push back).pusha.reg .sp)
    (hseg : p.seg = c.seg) (hmem : p.mem = (c.push back).pusha.mem)
    (hask : requests p = requests c)
    (hcall : (Call.request ⟨i, p.reg, p.high, p.seg⟩) = none)
    (hq : Quiet own depth p (B i p))
    (hoff : Off own (c.seg .ss) (c.reg .sp) 18)
    (hdepth : depth + 18 ≤ 65536) :
    ∃ d, c.call back f = .ok d ∧ Calm own (depth + 18) c d := by
  have hss : (p.int B i).seg .ss = (c.push back).seg .ss :=
    (congrFun hq.seg .ss).trans (congrFun hseg .ss)
  have hret : (c.push back).Returns own (depth + 16) (p.int B i).popa.ret := by
    refine leave_returns hss ?_ ?_ ?_ hdepth
    · rw [← pusha_sp]
      exact (hq.reg .sp (by decide)).trans hreg
    · intro b hb
      rw [← hmem]
      exact hq.mem b (hb.congr (congrFun hseg .ss) hreg)
    · rw [push_sp, BitVec.sub_add_cancel]
      exact hoff
  obtain ⟨hcall', hsteady⟩ := call_steady hf hret
  refine ⟨_, hcall', hsteady, ?_, ?_⟩
  · exact (congrFun hq.seg .ds).trans (congrFun hseg .ds)
  · show requests (p.int B i) = _
    rw [requests_int, hcall, hask]
    exact List.append_nil _

/-- The BIOS services of the boot sector: printing, the screen mode, a key,
the reset of the drive, and its sectors. -/
structure BootBios (B : Bios ω) (own : BitVec 64 → Prop) (depth : Nat)
    (disk : BitVec 16 → BitVec 8 → BitVec 8 → Nat → BitVec 8) : Prop where
  teletype : Teletype B own depth
  mode : ∀ c : Pc ω, c.high8 .ax = 0#8 → Quiet own depth c (B 0x10#8 c)
  key : ∀ c : Pc ω, c.high8 .ax = 0#8 → Quiet own depth c (B 0x16#8 c)
  reset : ∀ c : Pc ω, c.high8 .ax = 0#8 →
    (B 0x13#8 c).carry = false ∧ Quiet own depth c (B 0x13#8 c)
  serves : Serves B own depth disk

theorem call_bios_cls
    (hmode : ∀ c : Pc ω, c.high8 .ax = 0#8 → Quiet own depth c (B 0x10#8 c))
    (back : BitVec 16)
    (hoff : Off own (c.seg .ss) (c.reg .sp) 18)
    (hdepth : depth + 18 ≤ 65536) :
    ∃ d, c.call back (bios_cls B) = .ok d ∧ Calm own (depth + 18) c d := by
  refine service_calm
    (p := ((c.push back).pusha.setHigh8 .ax 0x0#8).setLow8 .ax 0x3#8) rfl
    rfl rfl rfl rfl rfl (hmode _ ?_) hoff hdepth
  simp only [high8, setHigh8, setLow8, set_reg, if_true,
    BitVec.extractLsb'_append_eq_left]

theorem call_get_key_stroke
    (hkey : ∀ c : Pc ω, c.high8 .ax = 0#8 → Quiet own depth c (B 0x16#8 c))
    (back : BitVec 16) (hoff : Off own (c.seg .ss) (c.reg .sp) 18)
    (hdepth : depth + 18 ≤ 65536) :
    ∃ d, c.call back (get_key_stroke B) = .ok d
      ∧ Calm own (depth + 18) c d := by
  refine service_calm (p := (c.push back).pusha.setHigh8 .ax 0x0#8) rfl
    rfl rfl rfl rfl rfl (hkey _ ?_) hoff hdepth
  simp only [high8, setHigh8, set_reg, if_true,
    BitVec.extractLsb'_append_eq_left]

-- =========================================================== the messages

/-- The data file as loaded, behind its variables and up to the load
address. -/
def Texts (L : DiskLabels) (c : Pc ω) : Prop :=
  ∀ k, 12 ≤ k → k < 139 →
    c.mem (linear (c.seg .ds) (L.boot_drive + BitVec.ofNat 16 k))
      = first_stage_data.getD k 0#8

/-- The file has this text, and its zero, at `i`. -/
def InData (i : Nat) (str : List (BitVec 8)) : Prop :=
  12 ≤ i ∧ i + str.length < 139 ∧ 0#8 ∉ str
    ∧ ∀ j < str.length + 1,
      first_stage_data.getD (i + j) 0#8 = (str ++ [0#8]).getD j 0#8

instance (i : Nat) (str : List (BitVec 8)) : Decidable (InData i str) :=
  inferInstanceAs (Decidable (_ ∧ _ ∧ _ ∧ _))

theorem Texts.lasting {i : Nat} (h : Texts L.toDiskLabels c)
    (hplaced : Placed own L.toDiskLabels (c.seg .ds) (c.seg .ss) (c.reg .sp) n)
    (hin : InData i str) :
    Lasting own n c (L.boot_drive + BitVec.ofNat 16 i) (str ++ [0#8]) := by
  obtain ⟨hlow, hhigh, -, htext⟩ := hin
  have hadd : ∀ j : Nat, L.boot_drive + BitVec.ofNat 16 i + BitVec.ofNat 16 j
      = L.boot_drive + BitVec.ofNat 16 (i + j) := by
    intro j
    rw [BitVec.add_assoc, ← BitVec.ofNat_add]
  refine ⟨fun j hj => ?_, fun j hj => ?_⟩
  · rw [List.length_append, List.length_singleton] at hj
    rw [hadd, h (i + j) (by omega) (by omega)]
    exact htext j hj
  · rw [List.length_append, List.length_singleton] at hj
    rw [hadd]
    exact hplaced.fixed ⟨i + j, by omega, rfl⟩

/-- The rest of a message's way: `mov si` and the call. -/
theorem call_print_message (hT : Teletype B own depth) {i : Nat}
    (call : BootCall) (hin : InData i str) (hfuel : str.length < fuel)
    (htexts : Texts L.toDiskLabels c)
    (hplaced : Placed own L.toDiskLabels (c.seg .ds) (c.seg .ss) (c.reg .sp)
      (depth + 18)) (hdepth : depth + 18 ≤ 65536) :
    ∃ d, print_message B L fuel call (L.boot_drive + BitVec.ofNat 16 i) c
        = .ok d
      ∧ Calm own (depth + 18) (c.set .si (L.boot_drive + BitVec.ofNat 16 i))
        d := by
  have hlast := htexts.lasting hplaced hin
  obtain ⟨d, hd, hsteady, hprinted⟩ := call_bios_print
    (c := c.set .si (L.boot_drive + BitVec.ofNat 16 i)) hT (L.after call) hfuel
    hin.2.2.1 ⟨hlast.there, hlast.fixed⟩
    (fun b hu hb => hplaced.stack b (hu.mono (by omega)) (Or.inl hb)) hdepth
  exact ⟨d, hd, hsteady, congrFun hprinted.seg .ds,
    call_bios_print_requests hd⟩

-- ======================================================= detect_boot_disk

/-- The bytes of `detect_boot_disk`: the BIOS's and the variables. -/
def ownVars (own : BitVec 64 → Prop) (L : DiskLabels) (ds : BitVec 16)
    (b : BitVec 64) : Prop :=
  own b ∨ ∃ k : Nat, k < 12 ∧ b = linear ds (L.boot_drive + BitVec.ofNat 16 k)

theorem Cells.vars {L : DiskLabels} {ds : BitVec 16} {b : BitVec 64}
    (h : Cells L ds b) : ownVars own L ds b := by
  obtain ⟨k, -, hk, hb⟩ := h
  exact Or.inr ⟨k, hk, hb⟩

/-- Behind the variables no byte of the data is one of theirs. -/
theorem not_vars {L : DiskLabels} {ds : BitVec 16} {k : Nat} (hk : 12 ≤ k)
    (hk' : k < 143)
    (hown : ¬ own (linear ds (L.boot_drive + BitVec.ofNat 16 k))) :
    ¬ ownVars own L ds (linear ds (L.boot_drive + BitVec.ofNat 16 k)) := by
  rintro (h | ⟨j, hj, heq⟩)
  · exact hown h
  · have := off_inj (by omega) (by omega) (linear_inj heq)
    omega

/-- A state inside `detect_boot_disk`, seen from its first instruction. -/
structure Inside (own : BitVec 64 → Prop) (L : BootLabels) (depth : Nat)
    (c d : Pc ω) : Prop where
  sp : d.reg .sp = c.reg .sp - 16#16
  ds : d.seg .ds = c.seg .ds
  ss : d.seg .ss = c.seg .ss
  dl : d.low8 .dx = c.low8 .dx
  asked : requests d = requests c
  mem : c.pusha.Spares (ownVars own L.toDiskLabels (c.seg .ds)) (depth + 18) d
  texts : Texts L.toDiskLabels d

/-- Where the data lies for the calls made from inside. -/
theorem Inside.placed (h : Inside own L depth c d)
    (hplaced : Placed own L.toDiskLabels (c.seg .ds) (c.seg .ss)
      (c.reg .sp + 2#16) (depth + 36)) :
    Placed own L.toDiskLabels (d.seg .ds) (d.seg .ss) (d.reg .sp)
      (depth + 18) := by
  have hback : d.reg .sp = c.reg .sp + 2#16 - BitVec.ofNat 16 18 := by
    rw [h.sp]
    apply BitVec.eq_of_toNat_eq
    simp only [BitVec.toNat_sub, BitVec.toNat_add, BitVec.toNat_ofNat]
    omega
  rw [h.ds, h.ss, hback]
  exact hplaced.below (j := 18)

/-- A call that keeps everything but the variables. -/
theorem Inside.steady (h : Inside own L depth c d)
    (hplaced : Placed own L.toDiskLabels (c.seg .ds) (c.seg .ss)
      (c.reg .sp + 2#16) (depth + 36))
    (hs : d.Steady (ownVars own L.toDiskLabels (c.seg .ds)) (depth + 18) e)
    (hds : e.seg .ds = d.seg .ds) (hask : requests e = requests d) :
    Inside own L depth c e := by
  refine ⟨(congrFun hs.reg .sp).trans h.sp, hds.trans h.ds, hs.ss.trans h.ss,
    ?_, hask.trans h.asked, ?_, fun k hk hk' => ?_⟩
  · rw [← h.dl]
    exact congrArg (BitVec.extractLsb' 0 8) (congrFun hs.reg .dx)
  · exact h.mem.trans hs.mem h.ss (h.sp.trans c.pusha_sp.symm)
  · have hin := h.placed hplaced
    have hdata : Data L.toDiskLabels (d.seg .ds)
        (linear (d.seg .ds) (L.boot_drive + BitVec.ofNat 16 k)) :=
      ⟨k, by omega, rfl⟩
    rw [hds, hs.mem _ ⟨?_, (hin.fixed hdata).2⟩]
    · exact h.texts k hk hk'
    · rw [← h.ds]
      exact not_vars hk (by omega) (hin.data _ hdata)

/-- A quiet call among them. -/
theorem Inside.calm (h : Inside own L depth c d)
    (hplaced : Placed own L.toDiskLabels (c.seg .ds) (c.seg .ss)
      (c.reg .sp + 2#16) (depth + 36)) (hc : Calm own (depth + 18) d e) :
    Inside own L depth c e :=
  h.steady hplaced ⟨hc.steady.reg, hc.steady.ss, fun b hb => hc.steady.mem b
    ⟨fun ho => hb.1 (Or.inl ho), hb.2⟩⟩ hc.ds hc.asked

theorem Inside.set (h : Inside own L depth c d) {r : Gpr} (v : BitVec 16)
    (hsp : r ≠ .sp) (hdx : r ≠ .dx) : Inside own L depth c (d.set r v) := by
  refine ⟨?_, h.ds, h.ss, ?_, h.asked, h.mem, h.texts⟩
  · exact (if_neg (Ne.symm hsp)).trans h.sp
  · rw [← h.dl]
    exact congrArg (BitVec.extractLsb' 0 8) (if_neg (Ne.symm hdx))

/-- A message on the way. -/
theorem Inside.print (h : Inside own L depth c d)
    (hT : Teletype B own depth)
    (hplaced : Placed own L.toDiskLabels (c.seg .ds) (c.seg .ss)
      (c.reg .sp + 2#16) (depth + 36)) {i : Nat} (call : BootCall)
    (hin : InData i str) (hfuel : str.length < fuel)
    (hdepth : depth + 18 ≤ 65536) :
    ∃ e, print_message B L fuel call (L.boot_drive + BitVec.ofNat 16 i) d
        = .ok e ∧ Inside own L depth c e
      ∧ ∀ b, Data L.toDiskLabels (c.seg .ds) b → e.mem b = d.mem b := by
  have hat := h.placed hplaced
  obtain ⟨e, he, hcalm⟩ := call_print_message hT call hin hfuel
    h.texts hat hdepth
  have hset := h.set (L.boot_drive + BitVec.ofNat 16 i) (r := .si) (by decide)
    (by decide)
  refine ⟨e, he, hset.calm hplaced hcalm, fun b hb => ?_⟩
  exact hcalm.data hat (by rw [← h.ds] at hb; exact hb)

/-- The cells a detection leaves for drive `dl`: a floppy's as they were, a
disk's from the BIOS. -/
structure Geometrised (L : BootLabels) (h : BitVec 8) (s : BitVec 6)
    (dl : BitVec 8) (c d : Pc ω) : Prop where
  drive : d.byte .ds L.boot_drive = dl
  lba : d.word .ds L.lba_sector = c.word .ds L.lba_sector
  floppy : dl = 0#8 → d.word .ds L.spt = c.word .ds L.spt
    ∧ d.word .ds L.hpc = c.word .ds L.hpc
  disk : dl ≠ 0#8 → d.word .ds L.spt = s.setWidth 16
    ∧ d.word .ds L.hpc = (h + 1#8) ++ 0#8

theorem data_word {L : DiskLabels} {i : Nat} (hi : i + 2 ≤ 143)
    (hds : d.seg .ds = c.seg .ds)
    (h : ∀ b, Data L (c.seg .ds) b → d.mem b = c.mem b) :
    d.word .ds (L.boot_drive + BitVec.ofNat 16 i)
      = c.word .ds (L.boot_drive + BitVec.ofNat 16 i) := by
  unfold word
  rw [hds]
  refine load_congr fun k hk => h _ ⟨i + k, by omega, ?_⟩
  rw [BitVec.add_assoc, ← BitVec.ofNat_add]

theorem data_byte {L : DiskLabels} (hds : d.seg .ds = c.seg .ds)
    (h : ∀ b, Data L (c.seg .ds) b → d.mem b = c.mem b) :
    d.byte .ds L.boot_drive = c.byte .ds L.boot_drive := by
  unfold byte
  rw [hds]
  refine h _ ⟨0, by omega, ?_⟩
  rw [BitVec.add_zero]

theorem Geometrised.next {h : BitVec 8} {s : BitVec 6} {dl : BitVec 8}
    (hg : Geometrised L h s dl c d) (hds : e.seg .ds = d.seg .ds)
    (hdata : ∀ b, Data L.toDiskLabels (d.seg .ds) b → e.mem b = d.mem b) :
    Geometrised L h s dl c e := by
  have hlba : e.word .ds L.lba_sector = d.word .ds L.lba_sector :=
    data_word (i := 1) (by omega) hds hdata
  have hspt : e.word .ds L.spt = d.word .ds L.spt :=
    data_word (i := 3) (by omega) hds hdata
  have hhpc : e.word .ds L.hpc = d.word .ds L.hpc :=
    data_word (i := 5) (by omega) hds hdata
  refine ⟨(data_byte hds hdata).trans hg.drive, hlba.trans hg.lba, ?_, ?_⟩
  · intro h0
    rw [hspt, hhpc]
    exact hg.floppy h0
  · intro h0
    rw [hspt, hhpc]
    exact hg.disk h0

/-- The device told apart, its message in SI. -/
theorem detect_device_spec {h : BitVec 8} {s : BitVec 6}
    (hreports : c.low8 .dx ≠ 0#8 → Reports B own depth (c.low8 .dx) h s)
    (hin : Inside own L depth c d)
    (hplaced : Placed own L.toDiskLabels (c.seg .ds) (c.seg .ss)
      (c.reg .sp + 2#16) (depth + 36)) (hdepth : depth + 18 ≤ 65536)
    (hdrive : d.byte .ds L.boot_drive = c.low8 .dx) :
    ∃ e i str, detect_device B L d
        = .ok (e.set .si (L.boot_drive + BitVec.ofNat 16 i))
      ∧ InData i str ∧ str.length ≤ 6 ∧ Inside own L depth c e
      ∧ Geometrised L h s (c.low8 .dx) d e := by
  have hat := hin.placed hplaced
  unfold detect_device
  by_cases hfloppy : d.low8 .dx = 0#8
  · rw [if_pos hfloppy]
    refine ⟨d, 74, chars "flpy" ++ [13, 10], rfl, by decide +kernel,
      by decide +kernel, hin, hdrive, rfl, fun _ => ⟨rfl, rfl⟩, fun hne => ?_⟩
    rw [← hin.dl] at hne
    exact absurd hfloppy hne
  · rw [if_neg hfloppy]
    have hne : c.low8 .dx ≠ 0#8 := hin.dl ▸ hfloppy
    have hpush : ∀ b, Data L.toDiskLabels (d.seg .ds) b →
        (d.push (L.after .params)).mem b = d.mem b := fun b hb =>
      d.push_mem _ fun hu => (hat.fixed hb).2 (hu.mono (by omega))
    have hbyte := data_byte (L := L.toDiskLabels)
      (d := d.push (L.after .params)) (c := d) rfl hpush
    obtain ⟨e, he, hret, hload⟩ := load_boot_drive_params_spec
      (c := d.push (L.after .params)) (L := L.toDiskLabels)
      (by rw [hbyte, hdrive]; exact hreports hne)
      (by rw [push_sp, BitVec.sub_add_cancel]; exact hat) hdepth
    obtain ⟨hcall, hsteady⟩ := call_steady he hret
    refine ⟨e, 81, chars "Disk" ++ [13, 10], ?_, by decide +kernel,
      by decide +kernel, ?_, ?_⟩
    · rw [hcall]
      rfl
    · refine hin.steady hplaced ⟨hsteady.reg, hsteady.ss, fun b hb => ?_⟩
        hload.ds ?_
      · refine hsteady.mem b ⟨?_, hb.2⟩
        rintro (ho | hc)
        · exact hb.1 (Or.inl ho)
        · rw [push_seg, hin.ds] at hc
          exact hb.1 hc.vars
      · have hpushed : requests (d.push (L.after .params)) = requests d :=
          congrArg (List.filterMap Call.request) (d.push_issued _)
        rw [← hpushed]
        exact load_boot_drive_params_requests he
    · refine ⟨?_, ?_, fun h0 => absurd h0 hne,
        fun _ => ⟨hload.spt, hload.hpc⟩⟩
      · have hds : e.seg .ds = d.seg .ds := hload.ds
        rw [← hdrive]
        unfold byte
        rw [hds, hsteady.mem _ ⟨?_, ?_⟩]
        · rintro (ho | ⟨k, hk1, hk, heq⟩)
          · refine hat.data _ ⟨0, by omega, ?_⟩ ho
            rw [BitVec.add_zero]
          · have hoff := linear_inj heq
            rw [← BitVec.add_zero (L.boot_drive), BitVec.add_assoc] at hoff
            have := off_inj (o := L.boot_drive) (j := 0) (k := k) (by omega)
              (by omega) (by simpa using hoff)
            omega
        · refine (hat.fixed ⟨0, by omega, ?_⟩).2
          rw [BitVec.add_zero]
      · rw [hload.lba]
        exact data_word (i := 1) (by omega) rfl hpush

/-- After the reset of the drive. -/
theorem drive_reset_spec
    {disk : BitVec 16 → BitVec 8 → BitVec 8 → Nat → BitVec 8}
    (hB : BootBios B own depth disk) (htexts : Texts L.toDiskLabels c)
    (hplaced : Placed own L.toDiskLabels (c.seg .ds) (c.seg .ss)
      (c.reg .sp + 2#16) (depth + 36)) :
    ∃ q, (((c.pusha.set .si L.fault_msg).set .ax 0#16).int B 0x13#8) = q
      ∧ q.carry = false ∧ Inside own L depth c q
      ∧ ∀ b, Data L.toDiskLabels (c.seg .ds) b → q.mem b = c.mem b := by
  obtain ⟨p, hp⟩ : ∃ p, (c.pusha.set .si L.fault_msg).set .ax 0#16 = p :=
    ⟨_, rfl⟩
  have hax : p.high8 .ax = 0#8 := by
    rw [← hp]
    show (0#16).extractLsb' 8 8 = 0#8
    decide
  have hpsp : p.reg .sp = c.reg .sp - 16#16 := by
    rw [← c.pusha_sp, ← hp]
    rfl
  have hpdx : p.reg .dx = c.reg .dx := by
    rw [← c.pusha_reg (r := .dx) (by decide), ← hp]
    rfl
  have hpseg : p.seg = c.seg := by
    rw [← hp]
    rfl
  have hpmem : p.mem = c.pusha.mem := by
    rw [← hp]
    rfl
  have hpreq : requests p = requests c := by
    rw [← hp]
    rfl
  obtain ⟨hcarry, hq⟩ := hB.reset p hax
  have hdata : ∀ b, Data L.toDiskLabels (c.seg .ds) b →
      (p.int B 0x13#8).mem b = c.mem b := by
    intro b hb
    have hu : ¬ Under (c.seg .ss) (c.reg .sp) (depth + 34) b := fun hu =>
      hplaced.stack b (hu.of_add (j := 2)) (Or.inr hb)
    show (B 0x13#8 p).mem b = _
    rw [hq.mem b ⟨hplaced.data b hb, fun hu' => hu ?_⟩, hpmem]
    · exact c.pusha_mem fun hu' => hu (hu'.mono (by omega))
    · rw [hpseg, hpsp] at hu'
      exact (hu'.of_sub (j := 16)).mono (by omega)
  rw [hp]
  refine ⟨p.int B 0x13#8, rfl, hcarry, ⟨?_, ?_, ?_, ?_, ?_, ?_, ?_⟩, hdata⟩
  · exact (hq.reg .sp (by decide)).trans hpsp
  · exact (congrFun hq.seg .ds).trans (congrFun hpseg .ds)
  · exact (congrFun hq.seg .ss).trans (congrFun hpseg .ss)
  · exact congrArg (BitVec.extractLsb' 0 8)
      ((hq.reg .dx (by decide)).trans hpdx)
  · have hnone : Call.request ⟨0x13#8, p.reg, p.high, p.seg⟩ = none := by
      rw [← hp]
      rfl
    rw [requests_int, hnone, hpreq]
    exact List.append_nil _
  · intro b hb
    show (B 0x13#8 p).mem b = _
    rw [hq.mem b ⟨fun ho => hb.1 (Or.inl ho), fun hu => hb.2 ?_⟩, hpmem]
    rw [hpseg, hpsp] at hu
    rw [pusha_sp]
    exact hu.mono (by omega)
  · intro k hk hk'
    have hds : (p.int B 0x13#8).seg .ds = c.seg .ds :=
      (congrFun hq.seg .ds).trans (congrFun hpseg .ds)
    rw [hds, hdata _ ⟨k, by omega, rfl⟩]
    exact htexts k hk hk'

/-- What `detect_boot_disk` leaves. -/
structure Detected (own : BitVec 64 → Prop) (L : BootLabels) (depth : Nat)
    (h : BitVec 8) (s : BitVec 6) (c d : Pc ω) : Prop where
  returns : c.Returns (ownVars own L.toDiskLabels (c.seg .ds)) (depth + 34) d
  ds : d.seg .ds = c.seg .ds
  asked : requests d = requests c
  cells : Geometrised L h s (c.low8 .dx) c d
  texts : Texts L.toDiskLabels d

theorem detect_boot_disk_spec
    {disk : BitVec 16 → BitVec 8 → BitVec 8 → Nat → BitVec 8}
    {h : BitVec 8} {s : BitVec 6} (hB : BootBios B own depth disk)
    (hreports : c.low8 .dx ≠ 0#8 → Reports B own depth (c.low8 .dx) h s)
    (htexts : Texts L.toDiskLabels c) (hfuel : 10 < fuel)
    (hplaced : Placed own L.toDiskLabels (c.seg .ds) (c.seg .ss)
      (c.reg .sp + 2#16) (depth + 36)) (hdepth : depth + 36 ≤ 65536) :
    ∃ d, detect_boot_disk B L fuel c = .ok d
      ∧ Detected own L depth h s c d := by
  obtain ⟨q, hq, hcarry, hin, hdata⟩ := drive_reset_spec hB htexts hplaced
  -- the first message, then the number of the drive
  obtain ⟨r, hr, hrin, hrdata⟩ := hin.print hB.teletype hplaced .bootedFrom
    (show InData 63 (chars "Boot from ") by decide +kernel)
    (Nat.lt_of_le_of_lt (by decide +kernel) hfuel) (by omega)
  obtain ⟨x, hx⟩ : ∃ x, r.put8 .ds L.boot_drive (r.low8 .dx) = x := ⟨_, rfl⟩
  have hxds : x.seg .ds = c.seg .ds := by
    rw [← hrin.ds, ← hx]
    rfl
  have hxmem : x.mem = store r.mem (c.seg .ds) L.boot_drive 1 (r.low8 .dx) := by
    rw [← hrin.ds, ← hx]
    rfl
  have hxout : ∀ b, ¬ ownVars own L.toDiskLabels (c.seg .ds) b →
      x.mem b = r.mem b := by
    intro b hb
    rw [hxmem]
    refine fill_out r.mem _ fun k hk heq => hb (Or.inr ⟨k, by omega, heq⟩)
  have hxin : Inside own L depth c x := by
    refine ⟨?_, hxds, ?_, ?_, ?_, fun b hb => ?_, fun k hk hk' => ?_⟩
    · rw [← hrin.sp, ← hx]
      rfl
    · rw [← hrin.ss, ← hx]
      rfl
    · rw [← hrin.dl, ← hx]
      rfl
    · rw [← hrin.asked, ← hx]
      rfl
    · rw [hxout b hb.1]
      exact hrin.mem b hb
    · rw [hxds, hxout _ (not_vars hk (by omega)
        (hplaced.data _ ⟨k, by omega, rfl⟩)), ← hrin.ds]
      exact hrin.texts k hk hk'
  have hxdrive : x.byte .ds L.boot_drive = c.low8 .dx := by
    unfold byte
    rw [hxds, hxmem, ← hrin.dl]
    have hat := fill_at r.mem (c.seg .ds) L.boot_drive
      (fun k => (r.low8 .dx).extractLsb' (8 * k) 8) (n := 1) (k := 0)
      (by omega) (by omega)
    rw [BitVec.add_zero] at hat
    exact hat.trans BitVec.extractLsb'_eq_self
  have hxword : ∀ i, 1 ≤ i → i + 2 ≤ 12 →
      x.word .ds (L.boot_drive + BitVec.ofNat 16 i)
        = c.word .ds (L.boot_drive + BitVec.ofNat 16 i) := by
    intro i hi hi'
    have hfar : load (store r.mem (c.seg .ds) (L.boot_drive
        + BitVec.ofNat 16 0) 1 (r.low8 .dx)) (c.seg .ds)
        (L.boot_drive + BitVec.ofNat 16 i) 2
        = load r.mem (c.seg .ds) (L.boot_drive + BitVec.ofNat 16 i) 2 :=
      cell_store_far (n := 1) L.boot_drive (r.low8 .dx) (by omega) hi'
        (by omega) (Or.inl hi)
    rw [BitVec.add_zero] at hfar
    unfold word
    rw [hxds, hxmem]
    refine hfar.trans (cell_congr (n := 2) hi hi' fun b hb => ?_)
    rw [hrdata b hb.data, hdata b hb.data]
  -- the geometry, and the second message
  obtain ⟨y, i, str, hy, hstr, hlen, hyin, hcells⟩ :=
    detect_device_spec hreports hxin hplaced (by omega) hxdrive
  have hshort : str.length < fuel := Nat.lt_of_le_of_lt hlen (by omega)
  obtain ⟨z, hz, hzin, hzdata⟩ := hyin.print hB.teletype hplaced .device
    hstr hshort (by omega)
  have hrun : detect_boot_disk B L fuel c = .ok z.popa.ret := by
    unfold detect_boot_disk
    show (if Pc.carry (Pc.int B 0x13#8 _) = true then _ else _) = _
    rw [hq, hcarry, if_neg (by decide)]
    show (print_message B L fuel .bootedFrom L.booted_from_msg q >>= _) = _
    rw [show L.booted_from_msg = L.boot_drive + BitVec.ofNat 16 63 from rfl, hr]
    show (detect_device B L (r.put8 .ds L.boot_drive (r.low8 .dx)) >>= _) = _
    rw [hx, hy]
    show (print_message B L fuel .device (L.boot_drive + BitVec.ofNat 16 i) y
      >>= _) = _
    rw [hz]
    rfl
  have hback : c.reg .sp + 2#16 - BitVec.ofNat 16 18 = c.reg .sp - 16#16 := by
    apply BitVec.eq_of_toNat_eq
    simp only [BitVec.toNat_sub, BitVec.toNat_add, BitVec.toNat_ofNat]
    omega
  have hcells' : Geometrised L h s (c.low8 .dx) c y := by
    refine ⟨hcells.drive, hcells.lba.trans (hxword 1 (by omega) (by omega)),
      fun h0 => ?_, hcells.disk⟩
    obtain ⟨h1, h2⟩ := hcells.floppy h0
    exact ⟨h1.trans (hxword 3 (by omega) (by omega)),
      h2.trans (hxword 5 (by omega) (by omega))⟩
  have hzcells := hcells'.next (hzin.ds.trans hyin.ds.symm)
    (fun b hb => hzdata b (by rw [← hyin.ds]; exact hb))
  refine ⟨z.popa.ret, hrun, ?_, hzin.ds, hzin.asked, ⟨hzcells.drive,
    hzcells.lba, hzcells.floppy, hzcells.disk⟩, hzin.texts⟩
  refine leave_returns hzin.ss hzin.sp hzin.mem (fun b hu hb => ?_) (by omega)
  refine hplaced.stack b (hu.mono (by omega)) (hb.imp id ?_)
  rintro ⟨k, hk, rfl⟩
  exact ⟨k, by omega, rfl⟩

-- ========================================================== named sectors

/-- With these cells the sectors up to `last` are named by their numbers. -/
def Names (g : Geometry) (spt hpc : BitVec 16) (last : Nat) : Prop :=
  ∀ (l es bx : BitVec 16) (dl : BitVec 8) (i : Nat),
    (l + BitVec.ofNat 16 i).toNat ≤ last →
    (sectorRequest l spt hpc dl es bx i).sector g
      = (l + BitVec.ofNat 16 i).toNat

/-- The right cells name the sectors of the first 256 cylinders. -/
theorem names_of_cells {g : Geometry} {spt hpc : BitVec 16} {last : Nat}
    (hspt : spt.toNat = g.sectors) (hhpc : hpc.toNat = g.heads)
    (hs : g.sectors ≤ 63) (hh : g.heads ≤ 256)
    (hlast : (g.address last).cylinder < 256) : Names g spt hpc last := by
  intro l es bx dl i hle
  have hmod := Nat.mod_lt (l + BitVec.ofNat 16 i).toNat g.sectors_pos
  refine request_sector rfl ?_ ?_
  · rw [hspt]
    omega
  · rw [hspt, hhpc]
    exact address_of_cells hh (Nat.lt_of_le_of_lt (cylinder_mono g hle) hlast)

/-- Too large a head count still names the sectors of the first cylinder. -/
theorem names_first {g : Geometry} {spt hpc : BitVec 16} {last : Nat}
    (hspt : spt.toNat = g.sectors) (hhpc : g.heads ≤ hpc.toNat)
    (hs : g.sectors ≤ 63) (hh : g.heads ≤ 256)
    (hlast : last / g.sectors < g.heads) : Names g spt hpc last := by
  intro l es bx dl i hle
  obtain ⟨n, hn⟩ : ∃ n, (l + BitVec.ofNat 16 i).toNat = n := ⟨_, rfl⟩
  rw [hn] at hle ⊢
  have hmod := Nat.mod_lt n g.sectors_pos
  have hq : n / g.sectors < g.heads :=
    Nat.lt_of_le_of_lt (Nat.div_le_div_right hle) hlast
  refine request_sector hn ?_ ?_
  · rw [hspt]
    omega
  · rw [hspt]
    show _ = Geometry.Address.mk _ _ _
    rw [Geometry.Address.mk.injEq, Nat.div_eq_of_lt hq, Nat.mod_eq_of_lt hq,
      Nat.div_eq_of_lt (Nat.lt_of_lt_of_le hq hhpc),
      Nat.mod_eq_of_lt (Nat.lt_of_lt_of_le hq hhpc)]
    exact ⟨rfl, Nat.mod_eq_of_lt (Nat.lt_of_lt_of_le hq hh), rfl⟩

/-- What the first stage is booted from, with its 135 sectors in reach: the
floppy of the data file, or a disk the BIOS reports. -/
def BootsFrom (B : Bios ω) (own : BitVec 64 → Prop) (depth : Nat)
    (dl : BitVec 8) (g : Geometry) : Prop :=
  (dl = 0#8 ∧ g = floppy)
    ∨ ∃ (h : BitVec 8) (s : BitVec 6) (hs : s ≠ 0#6), dl ≠ 0#8
      ∧ Reports B own depth dl h s ∧ h ≠ 255#8 ∧ 135 / s.toNat ≤ h.toNat
      ∧ g = driveGeometry h s hs

/-- The cells a floppy keeps. -/
theorem floppy_named {spt hpc : BitVec 16} (hspt : spt = 0x12#16)
    (hhpc : hpc = 0x2#16) :
    spt ≠ 0#16 ∧ hpc ≠ 0#16 ∧ Names floppy spt hpc 135 := by
  rw [hspt, hhpc]
  exact ⟨by decide, by decide, names_of_cells rfl rfl (by decide) (by decide)
    (by decide)⟩

/-- The cells a disk gets, when the sectors lie on its first cylinder. -/
theorem drive_named {spt hpc : BitVec 16} {h : BitVec 8} {s : BitVec 6}
    (hs : s ≠ 0#6) (hlast : h ≠ 255#8) (hfirst : 135 / s.toNat ≤ h.toNat)
    (hspt : spt = s.setWidth 16) (hhpc : hpc = (h + 1#8) ++ 0#8) :
    spt ≠ 0#16 ∧ hpc ≠ 0#16 ∧ Names (driveGeometry h s hs) spt hpc 135 := by
  have hs0 : 0 < s.toNat :=
    Nat.pos_of_ne_zero fun h0 => hs (BitVec.eq_of_toNat_eq h0)
  have hst : spt.toNat = s.toNat := by
    rw [hspt, BitVec.toNat_setWidth]
    exact Nat.mod_eq_of_lt (by omega)
  have hne : h.toNat ≠ 255 := fun h0 => hlast (BitVec.eq_of_toNat_eq h0)
  have hht : hpc.toNat = (h.toNat + 1) * 256 := by
    rw [hhpc, BitVec.toNat_append, Nat.shiftLeft_eq, BitVec.toNat_add]
    simp only [BitVec.toNat_ofNat, Nat.zero_mod, Nat.or_zero]
    omega
  refine ⟨fun h0 => ?_, fun h0 => ?_, names_first hst ?_ ?_ ?_ ?_⟩
  · rw [h0] at hst
    simp only [BitVec.toNat_ofNat] at hst
    omega
  · rw [h0] at hht
    simp only [BitVec.toNat_ofNat] at hht
    omega
  · rw [hht]
    show h.toNat + 1 ≤ _
    omega
  · show s.toNat ≤ 63
    omega
  · show h.toNat + 1 ≤ 256
    omega
  · show 135 / s.toNat < h.toNat + 1
    omega

-- ========================================================== a stage loaded

/-- `n` bytes at `s:o`, clear of the BIOS, the data and the stack. -/
def Clear (own : BitVec 64 → Prop) (L : DiskLabels) (depth : Nat)
    (s o : BitVec 16) (n : Nat) : Prop :=
  ∀ j < n, ¬ own (linear s (o + BitVec.ofNat 16 j))
    ∧ ¬ Data L 0#16 (linear s (o + BitVec.ofNat 16 j))
    ∧ ¬ Under 0#16 STACK_OFFSET (depth + 36) (linear s (o + BitVec.ofNat 16 j))

/-- Main between two calls, from the detection on: `l` is the next sector. -/
structure Booting (g : Geometry) (L : BootLabels) (bx : BitVec 16)
    (dl : BitVec 8) (l : Nat) (c : Pc ω) : Prop where
  ds : c.seg .ds = 0#16
  ss : c.seg .ss = 0#16
  sp : c.reg .sp = STACK_OFFSET
  bx : c.reg .bx = bx
  drive : c.byte .ds L.boot_drive = dl
  lba : (c.word .ds L.lba_sector).toNat = l
  spt : c.word .ds L.spt ≠ 0#16
  hpc : c.word .ds L.hpc ≠ 0#16
  names : Names g (c.word .ds L.spt) (c.word .ds L.hpc) 135
  texts : Texts L.toDiskLabels c

/-- There: everything as before, but for DI, the load address and the stack. -/
structure Handed (own : BitVec 64 → Prop) (L : BootLabels) (depth : Nat)
    (v segment offset : BitVec 16) (c e : Pc ω) : Prop where
  ds : e.seg .ds = 0#16
  ss : e.seg .ss = 0#16
  sp : e.reg .sp = STACK_OFFSET - 2#16
  di : e.reg .di = v
  reg : ∀ r, r ≠ .sp → r ≠ .di → e.reg r = c.reg r
  asked : requests e = requests c
  word : ∀ i, i + 2 ≤ 139 → e.word .ds (L.boot_drive + BitVec.ofNat 16 i)
    = c.word .ds (L.boot_drive + BitVec.ofNat 16 i)
  drive : e.byte .ds L.boot_drive = c.byte .ds L.boot_drive
  segment : loadSegment L.toDiskLabels e = segment
  offset : loadOffset L.toDiskLabels e = c.reg .bx + offset
  data : ∀ k < 139, e.mem (linear 0#16 (L.boot_drive + BitVec.ofNat 16 k))
    = c.mem (linear 0#16 (L.boot_drive + BitVec.ofNat 16 k))
  rest : ∀ b, ¬ Data L.toDiskLabels 0#16 b →
    ¬ Under 0#16 STACK_OFFSET (depth + 36) b → e.mem b = c.mem b

/-- The call has room and names its sectors. -/
theorem Handed.ready {g : Geometry} {bx : BitVec 16} {dl : BitVec 8}
    {l n : Nat} {segment offset : BitVec 16}
    (h : Handed own L depth (BitVec.ofNat 16 n) segment offset c e)
    (hat : Booting g L bx dl l c)
    (hplaced : Placed own L.toDiskLabels 0#16 0#16 STACK_OFFSET (depth + 36))
    (hn : 1 ≤ n) (hlast : l + n ≤ 136)
    (hclear : Clear own L.toDiskLabels depth segment (bx + offset) (512 * n)) :
    (e.word .ds L.lba_sector).toNat = l
      ∧ sectorCount L.toDiskLabels e = n
      ∧ RoomAt own L.toDiskLabels depth e
      ∧ ∀ i < n, (loadRequest L.toDiskLabels e i).sector g = l + i := by
  have hspt : e.word .ds L.spt = c.word .ds L.spt := h.word 3 (by omega)
  have hhpc : e.word .ds L.hpc = c.word .ds L.hpc := h.word 5 (by omega)
  have hlba : (e.word .ds L.lba_sector).toNat = l := by
    rw [← hat.lba]
    exact congrArg BitVec.toNat (h.word 1 (by omega))
  have hcount : sectorCount L.toDiskLabels e = n := by
    unfold sectorCount
    rw [h.di, rounds_eq hn (by omega), hlba]
    exact if_neg fun hcross => by omega
  have hsp : e.reg .sp + 2#16 = STACK_OFFSET := by
    rw [h.sp, BitVec.sub_add_cancel]
  have htext : ∀ k, 12 ≤ k → k < 139 →
      e.mem (linear 0#16 (L.boot_drive + BitVec.ofNat 16 k))
        = first_stage_data.getD k 0#8 := by
    intro k hk hk'
    have ht := hat.texts k hk hk'
    rw [hat.ds] at ht
    exact (h.data k hk').trans ht
  refine ⟨hlba, hcount, ?_, fun i hi => ?_⟩
  · unfold RoomAt
    rw [h.ds, h.ss, hsp, hcount, h.segment, h.offset, hat.bx]
    refine ⟨hplaced, ⟨(htext 134 (by omega) (by omega)).trans (by decide), ?_⟩,
      hclear⟩
    have hdot : L.dot + 1#16 = L.boot_drive + BitVec.ofNat 16 135 := by
      rw [DiskLabels.dot, BitVec.add_assoc]
      rfl
    rw [hdot]
    exact (htext 135 (by omega) (by omega)).trans (by decide)
  · have hsum : (c.word .ds L.lba_sector + BitVec.ofNat 16 i).toNat
        = l + i := by
      rw [BitVec.toNat_add, hat.lba, BitVec.toNat_ofNat]
      omega
    unfold loadRequest
    rw [hspt, hhpc, show e.word .ds L.lba_sector = c.word .ds L.lba_sector
      from h.word 1 (by omega), hat.names _ _ _ _ i (by rw [hsum]; omega), hsum]

/-- The boot sector's data, as loaded. -/
def Fresh (L : DiskLabels) (m : Mem) : Prop :=
  ∀ k < 143, m (linear 0#16 (L.boot_drive + BitVec.ofNat 16 k))
    = first_stage_data.getD k 0#8

/-- A word of it. -/
theorem Fresh.word {L : DiskLabels} {m : Mem} (h : Fresh L m) {i : Nat}
    {v : BitVec 16} (hi : i + 2 ≤ 143)
    (hv : ∀ k < 2, first_stage_data.getD (i + k) 0#8
      = v.extractLsb' (8 * k) 8) :
    load m 0#16 (L.boot_drive + BitVec.ofNat 16 i) 2 = v := by
  refine load_eq (n := 2) fun k hk => ?_
  rw [BitVec.add_assoc, ← BitVec.ofNat_add, h (i + k) (by omega)]
  exact hv k hk

/-- Main before the detection, `c` the state the BIOS left. -/
structure Starting (own : BitVec 64 → Prop) (L : BootLabels) (depth : Nat)
    (c d : Pc ω) : Prop where
  ds : d.seg .ds = 0#16
  ss : d.seg .ss = 0#16
  sp : d.reg .sp = STACK_OFFSET
  bx : d.reg .bx = c.reg .bx
  dx : d.reg .dx = c.reg .dx
  asked : requests d = requests c
  fresh : Fresh L.toDiskLabels d.mem
  rest : ∀ b, ¬ own b → ¬ Under 0#16 STACK_OFFSET (depth + 36) b →
    d.mem b = c.mem b

theorem Starting.texts (h : Starting own L depth c d) :
    Texts L.toDiskLabels d := by
  intro k _ hk
  rw [h.ds]
  exact h.fresh k (by omega)

theorem Starting.set (h : Starting own L depth c d) (v : BitVec 16) :
    Starting own L depth c (d.set .si v) :=
  ⟨h.ds, h.ss, h.sp, h.bx, h.dx, h.asked, h.fresh, h.rest⟩

theorem Starting.calm (h : Starting own L depth c d)
    (hplaced : Placed own L.toDiskLabels 0#16 0#16 STACK_OFFSET (depth + 36))
    (hc : Calm own (depth + 18) d e) : Starting own L depth c e := by
  have hmem : ∀ b, ¬ own b → ¬ Under 0#16 STACK_OFFSET (depth + 36) b →
      e.mem b = d.mem b := by
    intro b hown hu
    refine hc.steady.mem b ⟨hown, fun hu' => hu ?_⟩
    rw [h.ss, h.sp] at hu'
    exact hu'.mono (by omega)
  refine ⟨hc.ds.trans h.ds, hc.steady.ss.trans h.ss,
    (congrFun hc.steady.reg .sp).trans h.sp,
    (congrFun hc.steady.reg .bx).trans h.bx,
    (congrFun hc.steady.reg .dx).trans h.dx, hc.asked.trans h.asked,
    fun k hk => ?_, fun b hown hu => ?_⟩
  · have hin : Data L.toDiskLabels 0#16
        (linear 0#16 (L.boot_drive + BitVec.ofNat 16 k)) := ⟨k, hk, rfl⟩
    rw [hmem _ (hplaced.data _ hin) fun hu => hplaced.stack _ hu (Or.inr hin)]
    exact h.fresh k hk
  · rw [hmem b hown hu]
    exact h.rest b hown hu

/-- A message among them. -/
theorem Starting.print (h : Starting own L depth c d)
    (hT : Teletype B own depth)
    (hplaced : Placed own L.toDiskLabels 0#16 0#16 STACK_OFFSET (depth + 36))
    {i : Nat} (call : BootCall) (hin : InData i str)
    (hfuel : str.length < fuel) (hdepth : depth + 18 ≤ 65536) :
    ∃ e, print_message B L fuel call (L.boot_drive + BitVec.ofNat 16 i) d
        = .ok e ∧ Starting own L depth c e := by
  obtain ⟨e, he, hcalm⟩ := call_print_message hT call hin hfuel h.texts
    (by rw [h.ds, h.ss, h.sp]; exact hplaced.mono (by omega)) hdepth
  exact ⟨e, he, (h.set _).calm hplaced hcalm⟩

/-- The detection, for whichever drive. -/
theorem Starting.detect {g : Geometry}
    {drive : BitVec 8 → Nat → Nat → BitVec 8}
    (h : Starting own L depth c d)
    (hB : BootBios B own depth (diskOf g drive))
    (hfrom : BootsFrom B own depth (c.low8 .dx) g) (hfuel : 10 < fuel)
    (hplaced : Placed own L.toDiskLabels 0#16 0#16 STACK_OFFSET (depth + 36))
    (hdepth : depth + 36 ≤ 65536) :
    ∃ e, d.call (L.after .detect) (detect_boot_disk B L fuel) = .ok e
      ∧ Booting g L (c.reg .bx) (c.low8 .dx) 1 e
      ∧ requests e = requests c
      ∧ ∀ b, ¬ own b → ¬ Data L.toDiskLabels 0#16 b →
        ¬ Under 0#16 STACK_OFFSET (depth + 36) b → e.mem b = c.mem b := by
  obtain ⟨p, hp⟩ : ∃ p, d.push (L.after .detect) = p := ⟨_, rfl⟩
  have hds : p.seg .ds = 0#16 := hp ▸ h.ds
  have hss : p.seg .ss = 0#16 := hp ▸ h.ss
  have hsp : p.reg .sp + 2#16 = STACK_OFFSET := by
    rw [← hp, push_sp, BitVec.sub_add_cancel]
    exact h.sp
  have hdl : p.low8 .dx = c.low8 .dx := by
    rw [← hp]
    exact congrArg (BitVec.extractLsb' 0 8) h.dx
  have hfresh : Fresh L.toDiskLabels p.mem := by
    intro k hk
    rw [← h.fresh k hk, ← hp]
    refine d.push_mem _ fun hu => hplaced.stack _ ?_ (Or.inr ⟨k, hk, rfl⟩)
    rw [h.ss, h.sp] at hu
    exact hu.mono (by omega)
  have hword : ∀ {i : Nat} {v : BitVec 16}, i + 2 ≤ 143 →
      (∀ k < 2, first_stage_data.getD (i + k) 0#8 = v.extractLsb' (8 * k) 8) →
      p.word .ds (L.boot_drive + BitVec.ofNat 16 i) = v := by
    intro i v hi hv
    unfold word
    rw [hds]
    exact hfresh.word hi hv
  obtain ⟨hd', sc, hreports, hnamed⟩ : ∃ (h : BitVec 8) (s : BitVec 6),
      (p.low8 .dx ≠ 0#8 → Reports B own depth (p.low8 .dx) h s)
        ∧ ∀ e : Pc ω, Geometrised L h s (p.low8 .dx) p e →
          e.word .ds L.spt ≠ 0#16 ∧ e.word .ds L.hpc ≠ 0#16
            ∧ Names g (e.word .ds L.spt) (e.word .ds L.hpc) 135 := by
    rw [hdl]
    rcases hfrom with ⟨h0, rfl⟩ | ⟨hd', sc, hsc, hne, hrep, hlast, hfirst, rfl⟩
    · refine ⟨0#8, 0#6, fun hne => absurd h0 hne, fun e hcells => ?_⟩
      obtain ⟨h1, h2⟩ := hcells.floppy h0
      exact floppy_named (h1.trans (hword (i := 3) (by omega) (by decide)))
        (h2.trans (hword (i := 5) (by omega) (by decide)))
    · refine ⟨hd', sc, fun _ => hrep, fun e hcells => ?_⟩
      obtain ⟨h1, h2⟩ := hcells.disk hne
      exact drive_named hsc hlast hfirst h1 h2
  obtain ⟨e, he, hdet⟩ := detect_boot_disk_spec (c := p) hB hreports
    (fun k _ hk => by rw [hds]; exact hfresh k (by omega)) hfuel
    (by rw [hds, hss, hsp]; exact hplaced) hdepth
  obtain ⟨hcall, hsteady⟩ := call_steady (c := d) (hp ▸ he)
    (hp.symm ▸ hdet.returns)
  obtain ⟨hspt, hhpc, hnames⟩ := hnamed e hdet.cells
  refine ⟨e, hcall, ⟨hdet.ds.trans hds, hdet.returns.ss.trans hss,
    hdet.returns.sp.trans hsp, ?_, hdet.cells.drive.trans hdl, ?_, hspt, hhpc,
    hnames, hdet.texts⟩, ?_, fun b hown hb hu => ?_⟩
  · exact (congrFun hsteady.reg .bx).trans h.bx
  · rw [hdet.cells.lba]
    exact congrArg BitVec.toNat (hword (i := 1) (v := 1#16) (by omega)
      (by decide))
  · rw [hdet.asked, ← hp]
    exact h.asked
  · rw [hsteady.mem b ⟨?_, fun hu' => hu ?_⟩]
    · exact h.rest b hown hu
    · rintro (ho | ⟨k, hk, heq⟩)
      · exact hown ho
      · rw [push_seg, h.ds] at heq
        exact hb ⟨k, by omega, heq⟩
    · rw [h.ss, h.sp] at hu'
      exact hu'.mono (by omega)

-- ================================================================ the jump

/-- Where the loads go when BX is `bx` is clear of the loader. -/
structure Apart (own : BitVec 64 → Prop) (L : DiskLabels) (depth : Nat)
    (bx : BitVec 16) : Prop where
  second : Clear own L depth SECOND_STAGE_CODE_SEG (bx + SECOND_STAGE_OFFSET)
    (512 * 8)
  third : Clear own L depth THIRD_STAGE_CODE_SEG (bx + THIRD_STAGE_OFFSET)
    (512 * 127)

/-- The quiet end of main: a message and a key. -/
theorem Booting.finish {g : Geometry}
    {drive : BitVec 8 → Nat → Nat → BitVec 8} {bx : BitVec 16} {dl : BitVec 8}
    {l : Nat} (h : Booting g L bx dl l c)
    (hB : BootBios B own depth (diskOf g drive)) (hfuel : 11 < fuel)
    (hplaced : Placed own L.toDiskLabels 0#16 0#16 STACK_OFFSET (depth + 36))
    (hdepth : depth + 36 ≤ 65536) :
    ∃ d e, print_message B L fuel .loaded L.second_stage_loaded_msg c = .ok d
      ∧ d.call (L.after .key) (get_key_stroke B) = .ok e
      ∧ Calm own (depth + 18) (c.set .si L.second_stage_loaded_msg) e := by
  obtain ⟨d, hd, hcalm⟩ := call_print_message (i := 100) hB.teletype .loaded
    (show InData 100 ([13, 10] ++ chars "2nd Stage") by decide +kernel)
    (Nat.lt_of_le_of_lt (by decide +kernel) hfuel) h.texts
    (by rw [h.ds, h.ss, h.sp]; exact hplaced.mono (by omega)) (by omega)
  obtain ⟨e, he, hcalm'⟩ := call_get_key_stroke hB.key (c := d) (L.after .key)
    (by
      rw [hcalm.steady.ss, hcalm.steady.reg]
      show Off own (c.seg .ss) (c.reg .sp) 18
      rw [h.ss, h.sp]
      exact fun b hu ho => hplaced.stack b (hu.mono (by omega)) (Or.inl ho))
    (by omega)
  exact ⟨d, e, hd, he, hcalm.trans hcalm'⟩

end BootLoader.FirstStage
