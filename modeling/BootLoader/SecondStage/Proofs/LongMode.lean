/-
What the end of the second stage does to the machine.

The routines are called like the others, and leave the caller's registers
and memory alone; what they do is to the ports, the interrupt table
register and the screen. `video_cls_16` addresses the screen by its
physical address, with DS at zero, so it comes back when the limit of DS
reaches the last byte of it (`video_cls_16_spec`), and faults when it does
not (`video_cls_16_fault`).

The switch itself goes through exactly on a processor with long mode
(`switch_spec`, `switch_faults`): the accesses after `mov cr0` all lie in
the first two megabytes, which the page tables map to themselves.
-/
import BootLoader.SecondStage.LongMode
import BootLoader.SecondStage.Proofs.LongModeCheck
import BootLoader.SecondStage.Proofs.PageTable

namespace BootLoader.SecondStage

open FlatMemory Mem Segment Paging RealMode Pc FirstStage ModeSwitch Control

variable {ω : Type _} {B : Bios ω} {L : SwitchLabels} {P : Processor}
  {own : BitVec 64 → Prop} {depth fuel n : Nat} {c d : Pc ω}
  {s t u : Machine ω} {back : BitVec 16}

-- =============================================================== the calls

/-- The same processor, but for the PC and the ports. -/
structure SameMode (s t : Machine ω) : Prop where
  control : t.control = s.control
  idtBase : t.idtBase = s.idtBase
  idtLimit : t.idtLimit = s.idtLimit
  dsLimit : t.dsLimit = s.dsLimit

/-- A sequence that went through, taken apart. -/
theorem result_inv {α β : Type _} {x : Result α} {f : α → Result β} {b : β}
    (h : (x >>= f) = .ok b) : ∃ a, x = .ok a ∧ f a = .ok b := by
  cases x with
  | error e => cases h
  | ok a => exact ⟨a, rfl, h⟩

/-- A routine of the whole machine that comes back, its PC part as
`Returns` has it. -/
theorem machine_call {f : Machine ω → Result (Machine ω)}
    (hf : f (s.step fun c => c.push back) = .ok t)
    (hret : (s.pc.push back).Returns own n t.pc) :
    s.call back f = .ok t ∧ s.pc.Steady own (n + 2) t.pc := by
  have hpc : s.pc.call back (fun _ => .ok t.pc) = .ok t.pc
      ∧ s.pc.Steady own (n + 2) t.pc :=
    call_steady (f := fun _ => .ok t.pc) rfl hret
  refine ⟨?_, hpc.2⟩
  unfold Machine.call
  rw [hf]
  exact if_pos (hret.ip.trans (s.pc.push_top back))

-- ============================================================= disable_pic

def picDisabledText : List (BitVec 8) := chars "PIC disabled\r\n"

theorem picDisabled_fits :
    0#8 ∉ picDisabledText ∧ picDisabledText.length ≤ 30 := by
  decide +kernel

/-- The state of `disable_pic` as it prints. -/
theorem disable_pic_spec (hB : Teletype B own depth) (hfuel : 30 < fuel)
    (hdepth : depth + 36 ≤ 65536)
    (hmsg : Lasting own (depth + 36) s.pc L.pic_disabled_msg
      (picDisabledText ++ [0#8]))
    (hoff : Off own (s.pc.seg .ss) (s.pc.reg .sp) 36) :
    ∃ t, s.call back (disable_pic B L fuel) = .ok t
      ∧ s.pc.Steady own (depth + 36) t.pc ∧ t.pc.seg = s.pc.seg
      ∧ SameMode s t
      ∧ t.ports = s.ports ++ [(0x21#16, 0xFF#8), (0xA1#16, 0xFF#8)] := by
  obtain ⟨hz, hlen⟩ := picDisabled_fits
  obtain ⟨p, hp⟩ : ∃ p : Pc ω, p = ((s.pc.push back).pusha.setLow8 .ax
    0xFF#8).set .si L.pic_disabled_msg := ⟨_, rfl⟩
  have hseg : p.seg = s.pc.seg := by rw [hp]; rfl
  have hpsp : p.reg .sp = (s.pc.push back).pusha.reg .sp := by
    rw [hp]
    rfl
  have hsp : p.reg .sp = s.pc.reg .sp - BitVec.ofNat 16 18 := by
    rw [hpsp, pusha_sp, push_sp]
    apply BitVec.eq_of_toNat_eq
    simp only [BitVec.toNat_sub, BitVec.toNat_ofNat]
    omega
  have hmem : p.mem = (s.pc.push back).pusha.mem := by rw [hp]; rfl
  have hsi : p.reg .si = L.pic_disabled_msg := by rw [hp]; rfl
  have hlast : Lasting own (depth + 18) p (p.reg .si)
      (picDisabledText ++ [0#8]) := by
    rw [hsi]
    refine Lasting.below (j := 18) hmsg (congrFun hseg _) (congrFun hseg _)
      hsp fun b hb => ?_
    rw [hmem, pusha_mem, push_mem]
    · exact fun hu => hb (hu.mono (by omega))
    · exact fun hu => hb (Under.of_sub (j := 2) hu)
  obtain ⟨q, hq, hsteady, hprinted⟩ := call_bios_print (c := p) hB L.printed
    (Nat.lt_of_le_of_lt hlen hfuel) hz hlast
    (by rw [hseg, hsp]; exact Off.below (j := 18) (n := 18) hoff) (by omega)
  obtain ⟨t, ht⟩ : ∃ t : Machine ω, t = { s with
      pc := q.popa.ret
      ports := s.ports ++ [(0x21#16, 0xFF#8), (0xA1#16, 0xFF#8)] } := ⟨_, rfl⟩
  have hal : ((s.pc.push back).pusha.setLow8 .ax 0xFF#8).low8 .ax = 0xFF#8 := by
    unfold low8 setLow8
    rw [set_reg, if_pos rfl]
    exact BitVec.extractLsb'_append_eq_right
  have hrun : disable_pic B L fuel (s.step fun c => c.push back) = .ok t := by
    have hports : s.ports ++ [(0x21#16, 0xFF#8), (0xA1#16, 0xFF#8)]
        = s.ports ++ [(MASTER_PIC_DATA_PORT, ((s.pc.push back).pusha.setLow8
            .ax 0xFF#8).low8 .ax)]
          ++ [(SLAVE_PIC_DATA_PORT, ((s.pc.push back).pusha.setLow8 .ax
            0xFF#8).low8 .ax)] := by
      rw [hal, List.append_assoc]
      rfl
    rw [ht, hports]
    rw [hp] at hq
    unfold disable_pic
    simp only [Machine.step, Machine.out, Machine.run, hq]
    rfl
  have hret : (s.pc.push back).Returns own (depth + 34) t.pc := by
    rw [ht]
    refine leave_returns (n := depth + 18) ?_ ?_ ?_ ?_ (by omega)
    · exact (congrFun hprinted.seg .ss).trans (congrFun hseg .ss)
    · rw [congrFun hsteady.reg .sp, hpsp, pusha_sp]
    · intro b hb
      rw [← hmem]
      exact hsteady.mem b (hb.congr (congrFun hseg .ss) hpsp)
    · rw [push_sp, BitVec.sub_add_cancel]
      exact hoff.mono (by omega)
  obtain ⟨hcall, hall⟩ := machine_call hrun hret
  refine ⟨t, hcall, hall, ?_, ?_, ?_⟩
  · rw [ht]
    exact hprinted.seg.trans hseg
  · rw [ht]
    exact ⟨rfl, rfl, rfl, rfl⟩
  · rw [ht]

-- ===================================================== load_idt_descriptor

/-- An interrupt table of no entries. -/
theorem load_idt_descriptor_spec
    (hidt : Lasting own 18 s.pc L.IDT_DESCRIPTOR (List.replicate 6 0#8))
    (hoff : Off own (s.pc.seg .ss) (s.pc.reg .sp) 18) :
    ∃ t, s.call back (load_idt_descriptor L) = .ok t
      ∧ s.pc.Steady own 18 t.pc ∧ t.pc.seg = s.pc.seg
      ∧ t.control = s.control ∧ t.idtBase = 0#32 ∧ t.idtLimit = 0#16
      ∧ t.dsLimit = s.dsLimit ∧ t.ports = s.ports := by
  have hbyte : ∀ k < 6, (s.pc.push back).pusha.mem (linear (s.pc.seg .ds)
      (L.IDT_DESCRIPTOR + BitVec.ofNat 16 k)) = 0#8 := by
    intro k hk
    have hk' : k < (List.replicate 6 0#8).length := by
      rw [List.length_replicate]
      exact hk
    have hfix := hidt.fixed k hk'
    have hzero : (List.replicate 6 0#8).getD k 0#8 = 0#8 := by
      rw [List.getD_eq_getElem?_getD, List.getElem?_replicate, if_pos hk,
        Option.getD_some]
    rw [pusha_mem, push_mem]
    · exact (hidt.there k hk').trans hzero
    · exact fun hu => hfix.2 (hu.mono (by omega))
    · exact fun hu => hfix.2 (Under.of_sub (j := 2) hu)
  have hlimit : (s.pc.push back).pusha.word .ds L.IDT_DESCRIPTOR = 0#16 :=
    load_eq (n := 2) fun k hk => (hbyte k (by omega)).trans
      BitVec.extractLsb'_zero.symm
  have hbase : (s.pc.push back).pusha.dword .ds (L.IDT_DESCRIPTOR + 2#16)
      = 0#32 := by
    refine load_eq (n := 4) fun k hk => ?_
    have h := hbyte (2 + k) (by omega)
    rw [BitVec.ofNat_add, ← BitVec.add_assoc] at h
    exact h.trans BitVec.extractLsb'_zero.symm
  obtain ⟨t, ht⟩ : ∃ t : Machine ω, t = { s with
      pc := (s.pc.push back).pusha.popa.ret
      idtBase := 0#32
      idtLimit := 0#16 } := ⟨_, rfl⟩
  have hrun : load_idt_descriptor L (s.step fun c => c.push back) = .ok t := by
    have hload : lidt L.IDT_DESCRIPTOR
        ((s.step fun c => c.push back).step Pc.pusha)
          = { s with
              pc := (s.pc.push back).pusha
              idtBase := 0#32
              idtLimit := 0#16 } := by
      unfold lidt Machine.step
      dsimp only
      rw [hlimit, hbase]
      rfl
    unfold load_idt_descriptor
    dsimp only
    rw [hload, ht]
    rfl
  have hret : (s.pc.push back).Returns own 16 t.pc := by
    rw [ht]
    refine leave_returns (n := 0) rfl (pusha_sp _) (fun _ _ => rfl) ?_
      (by omega)
    rw [push_sp, BitVec.sub_add_cancel]
    exact hoff
  obtain ⟨hcall, hall⟩ := machine_call hrun hret
  rw [ht] at hcall hall
  exact ⟨_, hcall, hall, rfl, rfl, rfl, rfl, rfl, rfl⟩

-- ============================================================ video_cls_16

/-- The bytes of the screen. -/
def OnScreen (b : BitVec 64) : Prop := 0xB8000 ≤ b.toNat ∧ b.toNat < 0xB8FA0

/-- `video_cls_16` after `k` bytes, entered at `s`. -/
structure Blanked (s : Machine ω) (k : Nat) (t : Machine ω) : Prop where
  ax : t.pc.wide .ax = BitVec.ofNat 32 k
  bx : t.pc.wide .bx = BitVec.ofNat 32 (0xB8000 + k)
  cx : t.pc.wide .cx = VIDEO_SIZE
  sp : t.pc.reg .sp = s.pc.reg .sp
  seg : t.pc.seg = s.pc.seg
  mode : SameMode s t
  ports : t.ports = s.ports
  mem : ∀ b, ¬ OnScreen b → t.pc.mem b = s.pc.mem b

/-- A byte stored where the limit reaches it. -/
theorem Blanked.byte {k : Nat} (h : Blanked s k t) (hk : k < 4000)
    (hds : s.pc.seg .ds = 0#16) (hlimit : 0xB8000 + k ≤ s.dsLimit.toNat)
    (v : BitVec 8) : ∃ u, cls_byte v t = .ok u ∧ Blanked s (k + 1) u := by
  have hbx : (t.pc.wide .bx).toNat = 0xB8000 + k := by
    rw [h.bx, BitVec.toNat_ofNat]
    omega
  have hdst : t.pc.seg .ds = 0#16 := (congrFun h.seg .ds).trans hds
  have hlim : t.dsLimit.toNat = s.dsLimit.toNat :=
    congrArg BitVec.toNat h.mode.dsLimit
  have haddr : (Machine.far t.pc (t.pc.wide .bx)).toNat = 0xB8000 + k := by
    unfold Machine.far
    rw [hdst, hbx, BitVec.toNat_ofNat, BitVec.toNat_ofNat]
    omega
  obtain ⟨p, hp⟩ : ∃ p : Pc ω, p = { t.pc with
    mem := t.pc.mem.write8 (Machine.far t.pc (t.pc.wide .bx)) v } := ⟨_, rfl⟩
  obtain ⟨q, hq⟩ : ∃ q : Pc ω, q = (p.setWide .bx (p.wide .bx + 1#32)).setWide
    .ax ((p.setWide .bx (p.wide .bx + 1#32)).wide .ax + 1#32) := ⟨_, rfl⟩
  have hrun : cls_byte v t = .ok { t with pc := q } := by
    unfold cls_byte Machine.put8
    rw [if_neg (by omega), hq, hp]
    rfl
  have hwide : ∀ r, p.wide r = t.pc.wide r := fun r => by
    rw [hp]
    rfl
  refine ⟨_, hrun, ?_, ?_, ?_, ?_, ?_, ⟨h.mode.control, h.mode.idtBase,
    h.mode.idtLimit, h.mode.dsLimit⟩, h.ports, fun b hb => ?_⟩
  · show q.wide .ax = _
    rw [hq, wide_setWide, wide_setWide_of_ne _ _ (by decide), hwide, h.ax]
    exact BitVec.ofNat_add_ofNat ..
  · show q.wide .bx = _
    rw [hq, wide_setWide_of_ne _ _ (by decide), wide_setWide, hwide, h.bx]
    exact BitVec.ofNat_add_ofNat ..
  · show q.wide .cx = _
    rw [hq, wide_setWide_of_ne _ _ (by decide),
      wide_setWide_of_ne _ _ (by decide), hwide, h.cx]
  · show q.reg .sp = _
    rw [← h.sp, hq, hp]
    rfl
  · show q.seg = _
    rw [← h.seg, hq, hp]
    rfl
  · show q.mem b = _
    unfold OnScreen at hb
    rw [hq, setWide_mem, setWide_mem, hp, ← h.mem b hb]
    exact write_apply_of_out (n := 1) _ _ (by omega) (by omega)

/-- And where it does not, a fault. -/
theorem Blanked.fault {k : Nat} (h : Blanked s k t) (hk : k < 4000)
    (hlimit : s.dsLimit.toNat < 0xB8000 + k) (v : BitVec 8) :
    cls_byte v t = .error (.fault .generalProtection) := by
  have hbx : (t.pc.wide .bx).toNat = 0xB8000 + k := by
    rw [h.bx, BitVec.toNat_ofNat]
    omega
  have hlim : t.dsLimit.toNat = s.dsLimit.toNat :=
    congrArg BitVec.toNat h.mode.dsLimit
  unfold cls_byte Machine.put8
  rw [if_pos (by omega)]
  rfl

/-- A cell, its two bytes. -/
theorem Blanked.round {k : Nat} (h : Blanked s k t) (hk : k + 1 < 4000)
    (hds : s.pc.seg .ds = 0#16) :
    (0xB8000 + (k + 1) ≤ s.dsLimit.toNat →
        ∃ u, cls_round t = .ok u ∧ Blanked s (k + 2) u)
      ∧ (s.dsLimit.toNat < 0xB8000 + (k + 1) →
        cls_round t = .error (.fault .generalProtection)) := by
  constructor
  · intro hlimit
    obtain ⟨u, hu, h₁⟩ := h.byte (by omega) hds (by omega) 0x20#8
    obtain ⟨w, hw, h₂⟩ := h₁.byte hk hds hlimit 0x00#8
    refine ⟨w, ?_, h₂⟩
    unfold cls_round
    rw [hu]
    exact hw
  · intro hlimit
    unfold cls_round
    rcases Nat.lt_or_ge s.dsLimit.toNat (0xB8000 + k) with hlow | hreach
    · rw [h.fault (by omega) hlow]
      rfl
    · obtain ⟨u, hu, h₁⟩ := h.byte (by omega) hds hreach 0x20#8
      rw [hu]
      exact h₁.fault hk hlimit _

/-- The loop goes on until the last cell. -/
theorem Blanked.again {k : Nat} (h : Blanked s k t) (hk : k ≤ 4000) :
    (t.pc.wide .ax != t.pc.wide .cx) = decide (k < 4000) := by
  rw [h.ax, h.cx, Bool.eq_iff_iff, bne_iff_ne, decide_eq_true_iff]
  constructor
  · intro hne
    rcases Nat.lt_or_ge k 4000 with hlt | hge
    · exact hlt
    · obtain rfl : k = 4000 := by omega
      exact absurd rfl hne
  · intro hlt heq
    have hnat := congrArg BitVec.toNat heq
    rw [BitVec.toNat_ofNat] at hnat
    have hsize : VIDEO_SIZE.toNat = 4000 := rfl
    omega

theorem cls_loop_spec (h : Blanked s 0 t) (hds : s.pc.seg .ds = 0#16)
    (hfuel : 2000 ≤ fuel) (hlimit : 0xB8F9F ≤ s.dsLimit.toNat) :
    ∃ u, cls_loop fuel t = .ok u ∧ Blanked s 4000 u := by
  refine Loop.attempt_counted (fun k => Blanked s (2 * k)) (n := 2000)
    (by omega) ?_ ?_ ?_ hfuel h
  · intro k w hk hw
    exact (hw.round (by omega) hds).1 (by omega)
  · intro k w _ hk hw
    rw [hw.again (by omega)]
    exact decide_eq_true (by omega)
  · intro w hw
    rw [hw.again (by omega)]
    rfl

/-- A limit before the end of the screen. -/
theorem cls_loop_fault (hds : s.pc.seg .ds = 0#16)
    (hlimit : s.dsLimit.toNat < 0xB8F9F) : ∀ (fuel k : Nat) (t : Machine ω),
    Blanked s (2 * k) t → k < 2000 → cls_loop fuel t ≠ .ok u := by
  intro fuel
  induction fuel with
  | zero =>
      intro k t _ _ h
      cases h
  | succ fuel ih =>
      intro k t h hk hrun
      obtain ⟨hgo, hstop⟩ := h.round (by omega) hds
      unfold cls_loop at hrun
      rw [Loop.attempt] at hrun
      rcases Nat.lt_or_ge s.dsLimit.toNat (0xB8000 + (2 * k + 1)) with
        hlow | hreach
      · rw [hstop hlow] at hrun
        cases hrun
      · -- this cell is still inside, so it is not the last
        obtain ⟨w, hw, hnext⟩ := hgo hreach
        rw [hw] at hrun
        dsimp only at hrun
        rw [hnext.again (by omega), decide_eq_true (by omega), if_pos rfl]
          at hrun
        exact ih (k + 1) w hnext (by omega) hrun

/-- The state at the loop. -/
theorem video_start (s : Machine ω) : Blanked (s.step Pc.pusha) 0
    (((s.step fun c => c.pusha.setWide .ax 0#32).step fun c =>
      c.setWide .cx VIDEO_SIZE).step fun c =>
        c.setWide .bx VIDEO_BUFFER_EFFECTIVE_ADDRESS) := by
  refine ⟨?_, wide_setWide _ _ _, ?_, rfl, rfl, ⟨rfl, rfl, rfl, rfl⟩, rfl,
    fun _ _ => rfl⟩
  · exact (wide_setWide_of_ne _ _ (by decide)).trans
      ((wide_setWide_of_ne _ _ (by decide)).trans (wide_setWide _ _ _))
  · exact (wide_setWide_of_ne _ _ (by decide)).trans (wide_setWide _ _ _)

/-- The screen cleared, where the limit of DS reaches its end. -/
theorem video_cls_16_spec (hvideo : ∀ b, OnScreen b → own b)
    (hds : s.pc.seg .ds = 0#16) (hfuel : 2000 ≤ fuel)
    (hlimit : 0xB8F9F ≤ s.dsLimit.toNat)
    (hoff : Off own (s.pc.seg .ss) (s.pc.reg .sp) 18) :
    ∃ t, s.call back (video_cls_16 fuel) = .ok t
      ∧ s.pc.Steady own 18 t.pc ∧ t.pc.seg = s.pc.seg ∧ SameMode s t
      ∧ t.ports = s.ports := by
  obtain ⟨w, hw, hend⟩ := cls_loop_spec
    (video_start (s.step fun c => c.push back)) hds hfuel hlimit
  obtain ⟨t, ht⟩ : ∃ t, t = w.step fun c => c.popa.ret := ⟨_, rfl⟩
  have hrun : video_cls_16 fuel (s.step fun c => c.push back) = .ok t := by
    rw [ht]
    unfold video_cls_16
    dsimp only
    exact congrArg (· >>= _) hw
  have hret : (s.pc.push back).Returns own 16 t.pc := by
    rw [ht]
    refine leave_returns (n := 0) (congrFun hend.seg .ss)
      (hend.sp.trans (pusha_sp _)) ?_ ?_ (by omega)
    · exact fun b hb => hend.mem b fun hon => hb.1 (hvideo b hon)
    · rw [push_sp, BitVec.sub_add_cancel]
      exact hoff
  obtain ⟨hcall, hall⟩ := machine_call hrun hret
  rw [ht] at hcall hall
  exact ⟨_, hcall, hall, hend.seg, ⟨hend.mode.control, hend.mode.idtBase,
    hend.mode.idtLimit, hend.mode.dsLimit⟩, hend.ports⟩

/-- And where it does not, no return. -/
theorem video_cls_16_fault (hds : s.pc.seg .ds = 0#16)
    (hlimit : s.dsLimit.toNat < 0xB8F9F) :
    s.call back (video_cls_16 fuel) ≠ .ok t := by
  intro h
  obtain ⟨w, hw, -⟩ := result_inv h
  obtain ⟨x, hx, -⟩ := result_inv hw
  exact cls_loop_fault (s := (s.step fun c => c.push back).step Pc.pusha) hds
    hlimit fuel 0 _ (video_start _) (by omega) hx

-- ============================================================== the switch

/-- A processor in real mode. -/
structure InRealMode (c : Control) : Prop where
  paging : c.paging = false
  lma : c.lma = false

/-- The table of segments and its pointer, in the image. -/
structure Described (L : SwitchLabels) (m : Mem) : Prop where
  low : 0xC000 ≤ L.GDT64.toNat
  high : L.GDT64.toNat + 0x20 < 0xD000
  code : m.read64 (linear 0#16 L.GDT64 + 8#64) = 0x0020980000000000#64
  data : m.read64 (linear 0#16 L.GDT64 + 16#64) = 0x0000930000000000#64
  size : m.read16 (linear 0#16 L.pointer) = L.gdtSize
  base : m.read32 (linear 0#16 (L.pointer + 2#16)) = L.GDT64.setWidth 32

theorem ok_bind {α β : Type _} (a : α) (f : α → Result β) :
    ((.ok a : Result α) >>= f) = f a := rfl

theorem writes_ok {f : Control → Except Fault Control} {k : Control}
    (h : f s.control = .ok k) :
    s.writes f = .ok { s with control := k } := by
  unfold Machine.writes
  rw [h]

theorem writes_error {f : Control → Except Fault Control} {e : Fault}
    (h : f s.control = .error e) : s.writes f = .error (.fault e) := by
  unfold Machine.writes
  rw [h]

/-- The machine between the two control registers, and at `wrmsr`. -/
def atPages (s : Machine ω) : Machine ω :=
  (({ s with
      pc := s.pc.setWide .ax 0b10100000#32
      control := { s.control with cr4 := 0b10100000#32 } } : Machine ω).step
    fun c => c.setWide .di PAGE_TABLE_EFFECTIVE_ADDRESS).step
    fun c => c.setWide .dx (c.wide .di)

def atEfer (s : Machine ω) : Machine ω :=
  (rdmsr (({ atPages s with control :=
      { (atPages s).control with cr3 := (atPages s).pc.wide .dx } } :
      Machine ω).step fun c => c.setWide .cx 0xC0000080#32)).step
    fun c => c.setWide .ax (c.wide .ax ||| 0x00000100#32)

/-- The rest of the switch. -/
def pagingOn (L : SwitchLabels) (s : Machine ω) : Result (Entered ω) := do
  let s := s.step fun c => c.setWide .bx s.control.cr0
  let s := s.step fun c => c.setWide .bx (c.wide .bx ||| 0x80000001#32)
  let s ← s.writes fun c => c.movCr0 (s.pc.wide .bx)
  let s ← s.fetch (L.paged.setWidth 64)
  let s ← lgdt L.pointer s
  jump_far CODE_SEG L.LM64 s

theorem switch_eq (h : InRealMode s.control) :
    switch_to_long_mode P L s = wrmsr P (atEfer s) >>= pagingOn L := by
  have hcr4 : (s.step fun c => c.setWide .ax 0b10100000#32).writes (fun c =>
        c.movCr4 ((s.step fun c => c.setWide .ax 0b10100000#32).pc.wide .ax))
      = .ok { s with
          pc := s.pc.setWide .ax 0b10100000#32
          control := { s.control with cr4 := 0b10100000#32 } } := by
    refine writes_ok ?_
    show s.control.movCr4 ((s.pc.setWide .ax 0b10100000#32).wide .ax) = _
    rw [wide_setWide]
    unfold movCr4
    rw [h.lma]
    rfl
  unfold switch_to_long_mode
  dsimp only
  rw [hcr4, ok_bind]
  have hcr3 : (atPages s).writes (fun c => .ok { c with
        cr3 := (atPages s).pc.wide .dx })
      = .ok { atPages s with control :=
          { (atPages s).control with cr3 := (atPages s).pc.wide .dx } } :=
    writes_ok rfl
  refine (congrArg (· >>= _) hcr3).trans ?_
  rw [ok_bind]
  rfl

/-- Where the page tables are the second stage's, the first two megabytes
are themselves. -/
theorem translate_low {k : Control} {m : Mem} {a : BitVec 64}
    (hpaging : k.paging = true) (hcr3 : k.cr3 = 0x1000#32)
    (htable : Table m 0x1000#64 2048 (pageTables 512))
    (ha : a.toNat < 0x200000) : k.translate m a = .ok a := by
  have hwalk : walk m (k.cr3.setWidth 64) a = .mapped a := by
    rw [hcr3]
    exact (walk_pageTables htable (by omega)).trans (if_pos ha)
  unfold Control.translate
  rw [if_pos hpaging, hwalk]

theorem read_low {k : Control} {m : Mem} {a : BitVec 64}
    (hpaging : k.paging = true) (hcr3 : k.cr3 = 0x1000#32)
    (htable : Table m 0x1000#64 2048 (pageTables 512))
    (ha : a.toNat + n ≤ 0x200000) : k.read m a n = .ok (m.read a n) := by
  refine read_identity (by omega) fun i hi => ?_
  refine translate_low hpaging hcr3 htable ?_
  rw [BitVec.toNat_add, BitVec.toNat_ofNat]
  omega

theorem fetch_low {a : BitVec 64} (hpaging : s.control.paging = true)
    (hcr3 : s.control.cr3 = 0x1000#32)
    (htable : Table s.pc.mem 0x1000#64 2048 (pageTables 512))
    (ha : a.toNat < 0x200000) : s.fetch a = .ok s := by
  unfold Machine.fetch
  rw [translate_low hpaging hcr3 htable ha]
  exact if_pos rfl

/-- The size in the pointer takes in both segments. -/
theorem Described.limit {m : Mem} (h : Described L m) :
    23 ≤ L.gdtSize.toNat := by
  have hlow := h.low
  have hhigh := h.high
  unfold SwitchLabels.gdtSize SwitchLabels.pointer SwitchLabels.aligned
  simp only [BitVec.toNat_sub, BitVec.toNat_add, BitVec.toNat_ofNat]
  omega

theorem Described.pointer {m : Mem} (h : Described L m) :
    (linear 0#16 L.pointer).toNat + 6 < 0x10000
      ∧ (linear 0#16 (L.pointer + 2#16)).toNat + 4 < 0x10000 := by
  have hlow := h.low
  have hhigh := h.high
  rw [linear_toNat, linear_toNat]
  unfold SwitchLabels.pointer SwitchLabels.aligned
  simp only [BitVec.toNat_add, BitVec.toNat_ofNat]
  omega

/-- An entry of the table, in long mode. -/
theorem descriptor_low {k : Control} {m : Mem} (h : Described L m)
    (hpaging : k.paging = true) (hcr3 : k.cr3 = 0x1000#32)
    (htable : Table m 0x1000#64 2048 (pageTables 512))
    (hbase : k.gdtBase = L.GDT64.setWidth 32)
    (hlimit : k.gdtLimit = L.gdtSize) {sel : BitVec 16}
    (hnull : sel.toNat / 8 ≠ 0) (hlow : sel.toNat / 8 ≤ 2)
    (hgdt : sel.getLsbD 2 = false) :
    k.descriptor m sel = .ok (m.read64 (linear 0#16 L.GDT64
      + BitVec.ofNat 64 (sel.toNat / 8 * 8))) := by
  have hsize := h.limit
  have hhigh := h.high
  have haddr : k.gdtBase.setWidth 64 = linear 0#16 L.GDT64 := by
    apply BitVec.eq_of_toNat_eq
    rw [hbase, linear_toNat, BitVec.toNat_setWidth, BitVec.toNat_setWidth,
      BitVec.toNat_ofNat]
    omega
  have hnat := linear_toNat 0#16 L.GDT64
  rw [BitVec.toNat_ofNat] at hnat
  rw [descriptor_eq hnull hgdt (by rw [hlimit]; omega), haddr]
  refine read_low hpaging hcr3 htable ?_
  rw [BitVec.toNat_add, BitVec.toNat_ofNat]
  omega

/-- The two segments of the table. -/
theorem segments_low {k : Control} {m : Mem} (h : Described L m)
    (hpaging : k.paging = true) (hcr3 : k.cr3 = 0x1000#32)
    (htable : Table m 0x1000#64 2048 (pageTables 512))
    (hbase : k.gdtBase = L.GDT64.setWidth 32)
    (hlimit : k.gdtLimit = L.gdtSize) :
    k.codeSegment m CODE_SEG = .ok 0x0020980000000000#64
      ∧ k.dataSegment m DATA_SEG = .ok 0x0000930000000000#64 := by
  have hcode := descriptor_low h hpaging hcr3 htable hbase hlimit
    (show CODE_SEG.toNat / 8 ≠ 0 by decide) (by decide) (by decide)
  have hdata := descriptor_low h hpaging hcr3 htable hbase hlimit
    (show DATA_SEG.toNat / 8 ≠ 0 by decide) (by decide) (by decide)
  have hcode' : k.descriptor m CODE_SEG = .ok 0x0020980000000000#64 :=
    hcode.trans (congrArg Except.ok h.code)
  have hdata' : k.descriptor m DATA_SEG = .ok 0x0000930000000000#64 :=
    hdata.trans (congrArg Except.ok h.data)
  constructor
  · have hbig : (k.lma && Descriptor.long 0x0020980000000000#64
        && Descriptor.big 0x0020980000000000#64) = false := by
      rw [show Descriptor.big 0x0020980000000000#64 = false by decide,
        Bool.and_false]
    unfold codeSegment
    rw [hcode']
    simp only [bind, Except.bind, hbig]
    rfl
  · unfold dataSegment
    rw [if_neg (by decide), hdata']
    rfl

/-- Long mode, and the segments of the table. -/
structure LongAt (L : SwitchLabels) (k : Control) : Prop where
  protection : k.protection = true
  paging : k.paging = true
  pae : k.pae = true
  lma : k.lma = true
  cr3 : k.cr3 = 0x1000#32
  gdtBase : k.gdtBase = L.GDT64.setWidth 32
  gdtLimit : k.gdtLimit = L.gdtSize

/-- The same machine but for the control registers and the registers the
switch uses. -/
structure Beside (s t : Machine ω) : Prop where
  mem : t.pc.mem = s.pc.mem
  ss : t.pc.seg .ss = s.pc.seg .ss
  sp : t.pc.reg .sp = s.pc.reg .sp
  idtBase : t.idtBase = s.idtBase
  idtLimit : t.idtLimit = s.idtLimit
  ports : t.ports = s.ports

theorem Beside.trans (h : Beside s t) (h' : Beside t u) : Beside s u :=
  ⟨h'.mem.trans h.mem, h'.ss.trans h.ss, h'.sp.trans h.sp,
    h'.idtBase.trans h.idtBase, h'.idtLimit.trans h.idtLimit,
    h'.ports.trans h.ports⟩

/-- The 24 bits that `lgdt` takes hold a 16-bit address. -/
theorem base24 (g : BitVec 16) :
    g.setWidth 32 &&& 0x00FFFFFF#32 = g.setWidth 32 := by
  have hg := g.isLt
  apply BitVec.eq_of_toNat_eq
  rw [BitVec.toNat_and, BitVec.toNat_setWidth]
  show _ &&& 2 ^ 24 - 1 = _
  rw [Nat.and_two_pow_sub_one_eq_mod]
  omega

/-- From `mov cr0` to `LM64`. -/
theorem pagingOn_spec (hpae : s.control.pae = true)
    (hlme : s.control.lme = true) (hcr3 : s.control.cr3 = 0x1000#32)
    (htable : Table s.pc.mem 0x1000#64 2048 (pageTables 512))
    (hds : s.pc.seg .ds = 0#16) (hgdt : Described L s.pc.mem) :
    ∃ e, pagingOn L s = .ok e ∧ e.cs = 0x0020980000000000#64
      ∧ LongAt L e.machine.control ∧ Beside s e.machine := by
  obtain ⟨t, ht⟩ : ∃ t : Machine ω, t = (s.step fun c =>
    c.setWide .bx s.control.cr0).step fun c =>
      c.setWide .bx (c.wide .bx ||| 0x80000001#32) := ⟨_, rfl⟩
  have hbx : t.pc.wide .bx = s.control.cr0 ||| 0x80000001#32 := by
    rw [ht]
    exact (wide_setWide _ _ _).trans
      (congrArg (· ||| 0x80000001#32) (wide_setWide _ _ _))
  have hcontrol : t.control = s.control := by rw [ht]; rfl
  obtain ⟨v, hv⟩ : ∃ v, t.pc.wide .bx = v := ⟨_, rfl⟩
  have hpg : v.getLsbD 31 = true := by
    rw [← hv, hbx, BitVec.getLsbD_or]
    exact Bool.or_true _
  have hpe : v.getLsbD 0 = true := by
    rw [← hv, hbx, BitVec.getLsbD_or]
    exact Bool.or_true _
  -- paging on, with long mode
  obtain ⟨k, hk⟩ : ∃ k : Control, k = { s.control with
    cr0 := v, efer := withLma true s.control.efer } := ⟨_, rfl⟩
  have hcr0 : t.writes (fun c => c.movCr0 v) = .ok { t with control := k } := by
    refine writes_ok ?_
    rw [hcontrol, movCr0_eq fun _ => ⟨hpe, fun _ => hpae⟩, hpg, hlme, hk]
    rfl
  have hkpg : k.paging = true := by rw [hk]; exact hpg
  have hkcr3 : k.cr3 = 0x1000#32 := by rw [hk]; exact hcr3
  have htmem : t.pc.mem = s.pc.mem := by rw [ht]; rfl
  have htds : t.pc.seg .ds = 0#16 := by rw [ht]; exact hds
  have htable' : Table t.pc.mem 0x1000#64 2048 (pageTables 512) := by
    rw [htmem]
    exact htable
  have hgdt' : Described L t.pc.mem := by
    rw [htmem]
    exact hgdt
  have h16 : ∀ o : BitVec 16, (o.setWidth 64).toNat < 0x200000 := fun o => by
    have ho := o.isLt
    rw [BitVec.toNat_setWidth]
    omega
  -- the table of segments
  obtain ⟨j, hj⟩ : ∃ j : Control, j = k.lgdt L.gdtSize
    (L.GDT64.setWidth 32) := ⟨_, rfl⟩
  have hlgdt : lgdt L.pointer { t with control := k }
      = .ok { t with control := j } := by
    obtain ⟨h₁, h₂⟩ := hgdt'.pointer
    have hlimit : Machine.load (linear (t.pc.seg .ds) L.pointer) 2
        ({ t with control := k } : Machine ω) = .ok L.gdtSize := by
      unfold Machine.load
      rw [htds, read_low hkpg hkcr3 htable' (by omega)]
      exact congrArg Except.ok hgdt'.size
    have hbase : Machine.load (linear (t.pc.seg .ds) (L.pointer + 2#16)) 4
        ({ t with control := k } : Machine ω)
          = .ok (L.GDT64.setWidth 32) := by
      unfold Machine.load
      rw [htds, read_low hkpg hkcr3 htable' (by omega)]
      exact congrArg Except.ok hgdt'.base
    unfold lgdt
    dsimp only
    rw [hlimit, ok_bind, hbase, ok_bind, base24, hj]
  have hjpg : j.paging = true := by rw [hj]; exact hkpg
  have hjcr3 : j.cr3 = 0x1000#32 := by rw [hj]; exact hkcr3
  obtain ⟨hcode, -⟩ := segments_low (k := j) hgdt' hjpg hjcr3 htable'
    (by rw [hj]; rfl) (by rw [hj]; rfl)
  refine ⟨⟨{ t with control := j }, 0x0020980000000000#64, 0#64,
    L.LM64.setWidth 64⟩, ?_, rfl, ?_, ?_⟩
  · unfold pagingOn
    dsimp only
    rw [← ht, hv, hcr0, ok_bind, fetch_low (s := { t with control := k }) hkpg
      hkcr3 htable' (h16 _), ok_bind, hlgdt, ok_bind]
    unfold jump_far
    dsimp only
    rw [hcode]
    dsimp only
    rw [fetch_low (s := { t with control := j }) hjpg hjcr3 htable' (h16 _),
      ok_bind]
  · refine ⟨?_, hjpg, ?_, ?_, hjcr3, by rw [hj]; rfl, by rw [hj]; rfl⟩
    · rw [hj, hk]
      exact hpe
    · rw [hj, hk]
      exact hpae
    · rw [hj, hk]
      exact withLma_bit _ _
  · rw [ht]
    exact ⟨rfl, rfl, rfl, rfl, rfl, rfl⟩

/-- `LM64`, to the jump to the third stage. -/
theorem lm64_spec {e : Entered ω} (h : LongAt L e.machine.control)
    (htable : Table e.machine.pc.mem 0x1000#64 2048 (pageTables 512))
    (hgdt : Described L e.machine.pc.mem) :
    ∃ f, lm64 e = .ok f ∧ f.cs = e.cs ∧ f.data = 0x0000930000000000#64
      ∧ f.rip = 0x10000#64 ∧ LongAt L f.machine.control
      ∧ Beside e.machine f.machine := by
  obtain ⟨-, hdata⟩ := segments_low (k := e.machine.control) hgdt h.paging
    h.cr3 htable h.gdtBase h.gdtLimit
  have hmove : ∀ s : Machine ω, s.control = e.machine.control →
      s.pc.mem = e.machine.pc.mem → s.pc.reg .ax = DATA_SEG →
      move_data s = .ok 0x0000930000000000#64 := by
    intro s hc hm ha
    unfold move_data
    rw [hc, hm, ha, hdata]
  obtain ⟨s₁, hs₁⟩ : ∃ s₁ : Machine ω, s₁ = e.machine.step fun c =>
    c.set .ax DATA_SEG := ⟨_, rfl⟩
  obtain ⟨s₂, hs₂⟩ : ∃ s₂ : Machine ω, s₂ = s₁.step fun c =>
    c.setSeg .ds (c.reg .ax) := ⟨_, rfl⟩
  obtain ⟨s₃, hs₃⟩ : ∃ s₃ : Machine ω, s₃ = s₂.step fun c =>
    c.setSeg .es (c.reg .ax) := ⟨_, rfl⟩
  have hbeside : Beside e.machine s₃ ∧ s₃.control = e.machine.control := by
    rw [hs₃, hs₂, hs₁]
    exact ⟨⟨rfl, rfl, rfl, rfl, rfl, rfl⟩, rfl⟩
  have h₁ : move_data s₁ = .ok 0x0000930000000000#64 := by
    rw [hs₁]
    exact hmove _ rfl rfl rfl
  have h₂ : move_data s₂ = .ok 0x0000930000000000#64 := by
    rw [hs₂, hs₁]
    exact hmove _ rfl rfl rfl
  have h₃ : move_data s₃ = .ok 0x0000930000000000#64 := by
    rw [hs₃, hs₂, hs₁]
    exact hmove _ rfl rfl rfl
  have hfetch : s₃.fetch 0x10000#64 = .ok s₃ := by
    refine fetch_low ?_ ?_ ?_ (by decide)
    · rw [hbeside.2]
      exact h.paging
    · rw [hbeside.2]
      exact h.cr3
    · rw [hbeside.1.mem]
      exact htable
  refine ⟨⟨s₃, e.cs, 0x0000930000000000#64, 0x10000#64⟩, ?_, rfl, rfl, rfl,
    ?_, hbeside.1⟩
  · unfold lm64
    dsimp only
    rw [← hs₁, h₁, ok_bind, ← hs₂, h₂, ok_bind, ← hs₃, h₃, ok_bind, ok_bind,
      hfetch, ok_bind]
  · show LongAt L s₃.control
    rw [hbeside.2]
    exact h

/-- The machine in 64-bit code, about to enter the third stage. -/
structure InLongMode (L : SwitchLabels) (s : Machine ω) (e : Entered ω) :
    Prop where
  rip : e.rip = 0x10000#64
  cs : e.cs = 0x0020980000000000#64
  data : e.data = 0x0000930000000000#64
  control : LongAt L e.machine.control
  beside : Beside s e.machine

/-- The state at `wrmsr`. -/
theorem atEfer_spec (s : Machine ω) :
    Beside s (atEfer s) ∧ (atEfer s).pc.seg = s.pc.seg
      ∧ (atEfer s).control = { s.control with
        cr4 := 0b10100000#32, cr3 := 0x1000#32 }
      ∧ ((atEfer s).pc.wide .dx ++ (atEfer s).pc.wide .ax).getLsbD 8
        = true := by
  have hcr3 : (atPages s).pc.wide .dx = 0x1000#32 :=
    (wide_setWide _ _ _).trans (wide_setWide _ _ _)
  refine ⟨⟨rfl, rfl, rfl, rfl, rfl, rfl⟩, rfl, ?_, ?_⟩
  · rw [← hcr3]
    rfl
  · have hax : (atEfer s).pc.wide .ax = _ ||| 0x00000100#32 :=
      wide_setWide _ _ _
    rw [BitVec.getLsbD_append, if_pos (by decide), hax, BitVec.getLsbD_or]
    exact Bool.or_true _

/-- The switch on a processor with long mode. -/
theorem switch_spec (hreal : InRealMode s.control) (hlong : longMode P = true)
    (htable : Table s.pc.mem 0x1000#64 2048 (pageTables 512))
    (hds : s.pc.seg .ds = 0#16) (hgdt : Described L s.pc.mem) :
    ∃ e, switch_to_long_mode P L s >>= lm64 = .ok e ∧ InLongMode L s e := by
  obtain ⟨hbeside, hseg, hcontrol, hbit⟩ := atEfer_spec s
  obtain ⟨x, hx⟩ : ∃ x : BitVec 64,
      x = (atEfer s).pc.wide .dx ++ (atEfer s).pc.wide .ax := ⟨_, rfl⟩
  rw [← hx] at hbit
  obtain ⟨t, ht⟩ : ∃ t : Machine ω, t = { atEfer s with control :=
    { (atEfer s).control with efer := withLma false x } } := ⟨_, rfl⟩
  have hwrmsr : wrmsr P (atEfer s) = .ok t := by
    rw [ht]
    refine writes_ok ?_
    rw [← hx, hlong, writeEfer_eq]
    · rw [hcontrol]
      show Except.ok ({ s.control with
        cr4 := _, cr3 := _, efer := withLma s.control.lma x } : Control) = _
      rw [hreal.lma]
    · rw [hcontrol]
      exact hreal.paging
  have htmem : t.pc.mem = s.pc.mem := by rw [ht]; exact hbeside.mem
  obtain ⟨e, he, hcs, hat, hb⟩ := pagingOn_spec (L := L) (s := t) (by
      rw [ht, hcontrol]
      show (0b10100000#32).getLsbD 5 = true
      decide) (by
      rw [ht]
      exact (withLma_lme _ _).trans hbit) (by
      rw [ht, hcontrol]) (by
      rw [htmem]
      exact htable) (by
      rw [ht]
      exact (congrFun hseg .ds).trans hds) (by
      rw [htmem]
      exact hgdt)
  have hb' : Beside s e.machine := by
    refine Beside.trans ?_ hb
    rw [ht]
    exact ⟨hbeside.mem, hbeside.ss, hbeside.sp, hbeside.idtBase,
      hbeside.idtLimit, hbeside.ports⟩
  obtain ⟨f, hf, hfcs, hfdata, hfrip, hfat, hfb⟩ := lm64_spec hat
    (by rw [hb'.mem]; exact htable) (by rw [hb'.mem]; exact hgdt)
  refine ⟨f, ?_, hfrip, hfcs.trans hcs, hfdata, hfat, hb'.trans hfb⟩
  rw [switch_eq hreal, hwrmsr, ok_bind, he, ok_bind, hf]

/-- And on one without. -/
theorem switch_faults (hreal : InRealMode s.control)
    (hlong : longMode P = false) :
    switch_to_long_mode P L s = .error (.fault .generalProtection) := by
  obtain ⟨-, -, -, hbit⟩ := atEfer_spec s
  have hwrmsr : wrmsr P (atEfer s) = .error (.fault .generalProtection) := by
    refine writes_error ?_
    rw [hlong]
    exact writeEfer_fault hbit
  rw [switch_eq hreal, hwrmsr]
  rfl

theorem longMode_iff (P : Processor) : longMode P = true ↔ HasLongMode P := by
  unfold longMode HasLongMode
  rw [Bool.and_eq_true, Bool.and_eq_true, decide_eq_true_iff, and_assoc]

end BootLoader.SecondStage
