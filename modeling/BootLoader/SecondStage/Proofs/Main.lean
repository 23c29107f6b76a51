/-
The second stage as a whole: when it hands over to the third, and what it
hands over.

# The state between two calls

Main calls one routine after the other, and each comes back with the
stack, DS and the image of the second stage as they were (`Staged`). What
may have changed is memory the image does not lie in (`Going`). Two calls
change more: the scan fills the region segment, and `build_page_table` the
page tables. From there on neither is touched again.

# What decides

Four things can end the run, and only four: A20 not on yet, a processor
without long mode, a memory map that does not end with EBX zero, and a DS
limit that does not reach the screen (`second_stage_enters_iff`). A20 that
has to be switched on first is among them, because `check_a20_gate` then
comes back to the DI of its first entry (`call_check_a20_gate`). A
processor that slips through the CPUID check faults at `wrmsr`.
-/
import BootLoader.FirstStage.Proofs.Boot
import BootLoader.SecondStage.Main
import BootLoader.SecondStage.Proofs.A20Gate
import BootLoader.SecondStage.Proofs.LongMode
import BootLoader.SecondStage.Proofs.MemoryMap

namespace BootLoader.SecondStage

open FlatMemory Mem Segment Paging RealMode Pc FirstStage ModeSwitch

variable {ω α : Type _} {B : Bios ω} {L : SecondLabels} {P : Processor}
  {own : BitVec 64 → Prop} {depth fuel rounds n : Nat} {c d e : Pc ω}
  {greeting str : List (BitVec 8)} {back : BitVec 16}

-- ================================================================ the image

def a20OffText : List (BitVec 8) := chars "A20 is not enabled\r\n"

def a20OnText : List (BitVec 8) := chars "A20 is enabled\r\n"

def pressText : List (BitVec 8) := chars "press any key to resume!\r\n"

/-- The strings that main and its routines print. -/
def secondTexts (L : SecondLabels) (greeting : List (BitVec 8)) :
    List (BitVec 16 × List (BitVec 8)) :=
  [(L.greeting_msg, greeting), (L.a20_not_enabled_msg, a20OffText),
    (L.press_any_key, pressText), (L.a20.a20_enabled_msg, a20OnText),
    (L.map.hexa.hexa_prefix, hexaPrefix), (L.map.double_space, doubleSpace),
    (L.map.newline, crlf), (L.switch.pic_disabled_msg, picDisabledText)]
    ++ longModeMessages L.mode

/-- The bytes of the image that are read, beside the table of segments. -/
def secondBytes (L : SecondLabels) (greeting : List (BitVec 8)) :
    List (BitVec 16 × List (BitVec 8)) :=
  (secondTexts L greeting).map (fun x => (x.1, x.2 ++ [0#8]))
    ++ [(L.map.hexa.hexa_digits, hexaDigits),
      (L.switch.IDT_DESCRIPTOR, List.replicate 6 0#8)]

/-- The second stage as loaded, from C000h to CFFFh. -/
structure Imaged (L : SecondLabels) (greeting : List (BitVec 8)) (m : Mem) :
    Prop where
  low : ∀ x ∈ secondBytes L greeting, 0xC000 ≤ x.1.toNat
  high : ∀ x ∈ secondBytes L greeting, x.1.toNat + x.2.length ≤ 0xD000
  bytes : ∀ x ∈ secondBytes L greeting, ∀ k < x.2.length,
    m (linear 0#16 (x.1 + BitVec.ofNat 16 k)) = x.2.getD k 0#8
  gdt : Described L.switch m

/-- The segments where the image is. -/
theorem Described.congr {K : SwitchLabels} {m m' : Mem} (h : Described K m)
    (hm : ∀ b : BitVec 64, 0xC000 ≤ b.toNat → b.toNat < 0xD000 →
      m' b = m b) : Described K m' := by
  have hlow := h.low
  have hhigh := h.high
  obtain ⟨hptr, hptr'⟩ := h.pointer
  have hgdt := linear_toNat 0#16 K.GDT64
  have hp : (0xC000 ≤ (linear 0#16 K.pointer).toNat
        ∧ (linear 0#16 K.pointer).toNat + 2 ≤ 0xD000)
      ∧ 0xC000 ≤ (linear 0#16 (K.pointer + 2#16)).toNat
        ∧ (linear 0#16 (K.pointer + 2#16)).toNat + 4 ≤ 0xD000 := by
    rw [linear_toNat, linear_toNat]
    unfold SwitchLabels.pointer SwitchLabels.aligned
    simp only [BitVec.toNat_add, BitVec.toNat_ofNat]
    omega
  rw [BitVec.toNat_ofNat] at hgdt
  have hread : ∀ {a : BitVec 64} {n : Nat}, 0xC000 ≤ a.toNat →
      a.toNat + n ≤ 0xD000 → m'.read a n = m.read a n := by
    intro a n ha hn
    have hagree : AgreeOn m m' 0xC000 0xD000 := hm
    exact read_congr_of_range hagree (by omega) ha hn
  have hoff : ∀ k < 24, (linear 0#16 K.GDT64 + BitVec.ofNat 64 k).toNat
      = (linear 0#16 K.GDT64).toNat + k := by
    intro k hk
    rw [BitVec.toNat_add, BitVec.toNat_ofNat]
    omega
  have h8 := hoff 8 (by omega)
  have h16 := hoff 16 (by omega)
  refine ⟨hlow, hhigh, ?_, ?_, ?_, ?_⟩
  · exact (hread (n := 8) (by omega) (by omega)).trans h.code
  · exact (hread (n := 8) (by omega) (by omega)).trans h.data
  · exact (hread (n := 2) (by omega) (by omega)).trans h.size
  · exact (hread (n := 4) (by omega) (by omega)).trans h.base

theorem Imaged.congr {m m' : Mem} (h : Imaged L greeting m)
    (hm : ∀ b : BitVec 64, 0xC000 ≤ b.toNat → b.toNat < 0xD000 →
      m' b = m b) : Imaged L greeting m' := by
  refine ⟨h.low, h.high, fun x hx k hk => ?_, h.gdt.congr hm⟩
  have hlow := h.low x hx
  have hhigh := h.high x hx
  have haddr : (linear 0#16 (x.1 + BitVec.ofNat 16 k)).toNat
      = x.1.toNat + k := by
    rw [linear_toNat, BitVec.toNat_add, BitVec.toNat_ofNat, BitVec.toNat_ofNat]
    omega
  rw [hm _ (by omega) (by omega)]
  exact h.bytes x hx k hk

-- ======================================================== between two calls

/-- Main between two calls: flat segments, the stack empty, the image in
place. -/
structure Staged (L : SecondLabels) (greeting : List (BitVec 8)) (c : Pc ω) :
    Prop where
  ss : c.seg .ss = 0#16
  ds : c.seg .ds = 0#16
  sp : c.reg .sp = 0xB000#16
  image : Imaged L greeting c.mem

/-- From one such state to another. -/
structure Going (own : BitVec 64 → Prop) (n : Nat) (c d : Pc ω) : Prop where
  reg : ∀ r, r ≠ .si → d.reg r = c.reg r
  ss : d.seg .ss = c.seg .ss
  ds : d.seg .ds = c.seg .ds
  mem : c.Spares own n d

/-- Bytes that are not in [5000h, 20000h). -/
def Outlying (own : BitVec 64 → Prop) : Prop :=
  ∀ b, own b → b.toNat < 0x5000 ∨ 0x20000 ≤ b.toNat

theorem Going.trans (h : Going own n c d) (h' : Going own n d e) :
    Going own n c e :=
  ⟨fun r hr => (h'.reg r hr).trans (h.reg r hr), h'.ss.trans h.ss,
    h'.ds.trans h.ds, h.mem.trans h'.mem h.ss (h.reg .sp (by decide))⟩

/-- Where more may change. -/
theorem Going.widen {own' : BitVec 64 → Prop} (h : Going own n c d)
    (ho : ∀ b, own b → own' b) : Going own' n c d :=
  ⟨h.reg, h.ss, h.ds, fun b hb => h.mem b ⟨fun hob => hb.1 (ho b hob), hb.2⟩⟩

/-- A call that comes back. -/
theorem Going.of_steady {k : Nat} (h : c.Steady own k d) (hk : k ≤ n)
    (hds : d.seg .ds = c.seg .ds) : Going own n c d :=
  ⟨fun r _ => congrFun h.reg r, h.ss, hds, h.mem.mono hk⟩

/-- And a message before it. -/
theorem Going.of_set {k : Nat} {v : BitVec 16}
    (h : (c.set .si v).Steady own k d) (hk : k ≤ n)
    (hds : d.seg .ds = c.seg .ds) : Going own n c d := by
  refine ⟨fun r hr => ?_, h.ss, hds, fun b hb => ?_⟩
  · exact (congrFun h.reg r).trans (if_neg hr)
  · exact h.mem.mono hk b (hb.congr rfl rfl)

/-- The stack ends at B000h. -/
theorem Staged.under (h : Staged L greeting c) (hn : n ≤ 0xB000)
    {b : BitVec 64} (hu : Under (c.seg .ss) (c.reg .sp) n b) :
    0xB000 - n ≤ b.toNat ∧ b.toNat < 0xB000 := by
  have hsp : (0xB000#16).toNat = 0xB000 := rfl
  have hz : (0#16).toNat = 0 := rfl
  rw [h.ss, h.sp, Segment.under_iff (by omega)] at hu
  omega

/-- What lies above the stack and below the region segment is nobody's. -/
theorem Staged.fixed (h : Staged L greeting c) (ho : Outlying own)
    (hn : n ≤ 0x6000) {b : BitVec 64} (hb : 0xB000 ≤ b.toNat)
    (hb' : b.toNat < 0x20000) : c.Fixed own n b := by
  refine ⟨fun hob => ?_, fun hu => ?_⟩
  · rcases ho b hob with hlt | hge
    · omega
    · omega
  · have hstack := h.under (by omega) hu
    omega

theorem Staged.next (h : Staged L greeting c) (hg : Going own n c d)
    (ho : Outlying own) (hn : n ≤ 0x6000) : Staged L greeting d :=
  ⟨hg.ss.trans h.ss, hg.ds.trans h.ds, (hg.reg .sp (by decide)).trans h.sp,
    h.image.congr fun b hb hb' =>
      hg.mem b (h.fixed ho hn (by omega) (by omega))⟩

/-- Bytes of the image, as the routines need them. -/
theorem Staged.lasting (h : Staged L greeting c) (ho : Outlying own)
    (hn : n ≤ 0x6000) {o : BitVec 16} {bytes : List (BitVec 8)}
    (hx : (o, bytes) ∈ secondBytes L greeting) :
    Lasting own n c o bytes := by
  have hlow : 0xC000 ≤ o.toNat := h.image.low _ hx
  have hhigh : o.toNat + bytes.length ≤ 0xD000 := h.image.high _ hx
  refine ⟨fun k hk => ?_, fun k hk => ?_⟩
  · rw [h.ds]
    exact h.image.bytes _ hx k hk
  · have haddr : (linear 0#16 (o + BitVec.ofNat 16 k)).toNat
        = o.toNat + k := by
      rw [linear_toNat, BitVec.toNat_add, BitVec.toNat_ofNat,
        BitVec.toNat_ofNat]
      omega
    rw [h.ds]
    exact h.fixed ho hn (by omega) (by omega)

/-- The stack is nobody's either. -/
theorem Staged.off (h : Staged L greeting c) (ho : Outlying own)
    (hn : n ≤ 0x6000) : Off own (c.seg .ss) (c.reg .sp) n := by
  intro b hu hob
  have hstack := h.under (by omega) hu
  rcases ho b hob with hlt | hge
  · omega
  · omega

theorem Staged.set (h : Staged L greeting c) (v : BitVec 16) :
    Staged L greeting (c.set .si v) :=
  ⟨h.ss, h.ds, h.sp, h.image⟩

-- ============================================================= quiet calls

/-- All texts are strings, and short enough. -/
theorem texts_fit (hgreet : 0#8 ∉ greeting ∧ greeting.length < fuel)
    (hfuel : 30 < fuel) {x : BitVec 16 × List (BitVec 8)}
    (hx : x ∈ secondTexts L greeting) : 0#8 ∉ x.2 ∧ x.2.length < fuel := by
  have hall : ∀ y ∈ [a20OffText, pressText, a20OnText, hexaPrefix,
      doubleSpace, crlf, picDisabledText], 0#8 ∉ y ∧ y.length ≤ 30 := by
    decide +kernel
  rcases List.mem_append.1 hx with hx | hx
  · rcases List.mem_cons.1 hx with rfl | hx
    · exact hgreet
    · obtain ⟨hz, hlen⟩ := hall _ (List.mem_map_of_mem (f := Prod.snd) hx)
      exact ⟨hz, by omega⟩
  · obtain ⟨hz, hlen⟩ := messages_fit hx
    exact ⟨hz, by omega⟩

/-- A text of the image. -/
theorem text_bytes {x : BitVec 16 × List (BitVec 8)}
    (hx : x ∈ secondTexts L greeting) :
    (x.1, x.2 ++ [0#8]) ∈ secondBytes L greeting :=
  List.mem_append_left _ (List.mem_map_of_mem hx)

/-- `mov si, msg`, `call bios_print`. -/
theorem say_spec (hB : Teletype B own depth) (ho : Outlying own)
    (hmax : depth + 58 ≤ 0x6000) (h : Staged L greeting c)
    (call : SecondCall) {x : BitVec 16 × List (BitVec 8)}
    (hx : x ∈ secondTexts L greeting)
    (hfit : 0#8 ∉ x.2 ∧ x.2.length < fuel) :
    ∃ d, say B L fuel call x.1 c = .ok d ∧ Going own (depth + 58) c d := by
  have hset := h.set x.1
  obtain ⟨d, hd, hsteady, hprinted⟩ := call_bios_print (c := c.set .si x.1) hB
    (L.after call) hfit.2 hfit.1
    (hset.lasting ho (by omega) (text_bytes hx)) (hset.off ho (by omega))
    (by omega)
  exact ⟨d, hd, Going.of_set hsteady (by omega) (congrFun hprinted.seg .ds)⟩

/-- `call get_key_stroke`. -/
theorem key_spec
    (hkey : ∀ c : Pc ω, c.high8 .ax = 0#8 → Quiet own depth c (B 0x16#8 c))
    (ho : Outlying own) (hmax : depth + 58 ≤ 0x6000)
    (h : Staged L greeting c) (call : SecondCall) :
    ∃ d, key B L call c = .ok d ∧ Going own (depth + 58) c d := by
  obtain ⟨d, hd, hcalm⟩ := call_get_key_stroke hkey (L.after call)
    (h.off ho (by omega)) (by omega)
  exact ⟨d, hd, Going.of_steady hcalm.steady (by omega) hcalm.ds⟩

/-- `call bios_cls`. -/
theorem cls_spec
    (hmode : ∀ c : Pc ω, c.high8 .ax = 0#8 → Quiet own depth c (B 0x10#8 c))
    (ho : Outlying own) (hmax : depth + 58 ≤ 0x6000)
    (h : Staged L greeting c) (back : BitVec 16) :
    ∃ d, c.call back (bios_cls B) = .ok d ∧ Going own (depth + 58) c d := by
  obtain ⟨d, hd, hcalm⟩ := call_bios_cls hmode back (h.off ho (by omega))
    (by omega)
  exact ⟨d, hd, Going.of_steady hcalm.steady (by omega) hcalm.ds⟩

-- ========================================================= the page tables

/-- SP, SS and DS. -/
structure SameStack (c d : Pc ω) : Prop where
  sp : d.reg .sp = c.reg .sp
  ss : d.seg .ss = c.seg .ss
  ds : d.seg .ds = c.seg .ds

theorem SameStack.trans (h : SameStack c d) (h' : SameStack d e) :
    SameStack c e :=
  ⟨h'.sp.trans h.sp, h'.ss.trans h.ss, h'.ds.trans h.ds⟩

theorem rep_stosd_stack (c : Pc ω) : SameStack c (rep_stosd c) := by
  have hstep : ∀ k s, k < (c.reg .cx).toNat → SameStack c s →
      SameStack c (stosd s) := fun _ s _ hs =>
    SameStack.trans hs ⟨rfl, rfl, rfl⟩
  have h : SameStack c (Loop.times stosd (c.reg .cx).toNat c) :=
    Loop.times_counted (fun _ => SameStack c) hstep ⟨rfl, rfl, rfl⟩
  exact SameStack.trans h ⟨rfl, rfl, rfl⟩

theorem pte_loop_stack (h : pte_loop fuel c = .ok d) : SameStack c d := by
  refine Loop.attempt_preserves (P := SameStack c) (fun s s' hs hrun => ?_)
    ⟨rfl, rfl, rfl⟩ h
  cases hrun
  exact hs.trans ⟨rfl, rfl, rfl⟩

/-- The routine between its `pusha` and its `popa`. -/
theorem build_page_table_stack (h : build_page_table fuel c = .ok d) :
    ∃ u, d = u.popa.ret ∧ SameStack c.pusha u := by
  obtain ⟨t, ht⟩ : ∃ t, c.pusha.set .ax PAGE_TABLE_BASE_ADDRESS = t :=
    ⟨_, rfl⟩
  obtain ⟨s, hs⟩ : ∃ s, ((((t.setSeg .es (t.reg .ax)).setWide .ax
      0#32).setWide .di PAGE_TABLE_BASE_OFFSET).setWide .cx 0x1000#32).setWide
        .ax 0#32 = s := ⟨_, rfl⟩
  have hrun : build_page_table fuel c
      = (pte_loop fuel (linked ((rep_stosd s).setWide .di
          PAGE_TABLE_BASE_OFFSET)) >>= fun d => .ok d.popa.ret) := by
    rw [← hs, ← ht]
    rfl
  have hstart : SameStack c.pusha s := by
    rw [← hs, ← ht]
    exact ⟨rfl, rfl, rfl⟩
  have hclear : SameStack (rep_stosd s)
      (linked ((rep_stosd s).setWide .di PAGE_TABLE_BASE_OFFSET)) :=
    ⟨rfl, rfl, rfl⟩
  rw [hrun] at h
  obtain ⟨u, hloop, hd⟩ := bind_inv h
  cases hd
  exact ⟨u, rfl, (hstart.trans (rep_stosd_stack s)).trans
    (hclear.trans (pte_loop_stack hloop))⟩

/-- What may change while the tables are built. -/
def ownTables (own : BitVec 64 → Prop) (b : BitVec 64) : Prop :=
  own b ∨ (0x1000 ≤ b.toNat ∧ b.toNat < 0x5000)

theorem Outlying.tables (ho : Outlying own) : Outlying (ownTables own) := by
  rintro b (hob | htab)
  · exact ho b hob
  · exact Or.inl htab.2

/-- `call build_page_table`. -/
theorem call_build_page_table (ho : Outlying own) (hfuel : 512 ≤ fuel)
    (hmax : depth + 58 ≤ 0x6000) (h : Staged L greeting c)
    (back : BitVec 16) :
    ∃ d, c.call back (build_page_table fuel) = .ok d
      ∧ Going (ownTables own) (depth + 58) c d
      ∧ Table d.mem 0x1000#64 2048 (pageTables 512) := by
  obtain ⟨d, hd, htable, hout⟩ := build_page_table_spec hfuel (c.push back)
  obtain ⟨u, rfl, hstack⟩ := build_page_table_stack hd
  have hret : (c.push back).Returns (ownTables own) 16 u.popa.ret := by
    refine leave_returns (n := 0) hstack.ss ?_ ?_ ?_ (by omega)
    · exact hstack.sp.trans (pusha_sp _)
    · intro b hb
      refine hout b ?_
      by_contra htab
      exact hb.1 (Or.inr (by omega))
    · rw [push_sp, BitVec.sub_add_cancel]
      exact h.off ho.tables (by omega)
  obtain ⟨hcall, hsteady⟩ := call_steady hd hret
  exact ⟨_, hcall, Going.of_steady hsteady (by omega) hstack.ds, htable⟩

-- ===================================================================== A20

/-- A BIOS whose status call answers what `a20` reads off its state, if
anything, and after whose successful enable call that is 'enabled'. -/
structure A20Answers (B : Bios ω) (a20 : ω → Option Bool) : Prop where
  carry : ∀ q : Pc ω, q.reg .ax = 0x2402#16 →
    (B 0x15#8 q).carry = (a20 q.bios).isNone
  status : ∀ q : Pc ω, q.reg .ax = 0x2402#16 → ∀ b, a20 q.bios = some b →
    ((B 0x15#8 q).low8 .ax = 0#8 ↔ b = false)
  enable : ∀ q : Pc ω, q.reg .ax = 0x2401#16 → (B 0x15#8 q).carry = false →
    a20 (B 0x15#8 q).bios = some true

variable {a20 : ω → Option Bool}

theorem A20Answers.not_error (h : A20Answers B a20)
    (hcarry : (statusAsked B e).carry = false) :
    ∃ b, a20 e.bios = some b ∧ ((statusAsked B e).low8 .ax = 0#8
      ↔ b = false) := by
  have hq := h.carry (e.pusha.set .ax 0x2402#16) rfl
  have hcarry' : (B 0x15#8 (e.pusha.set .ax 0x2402#16)).carry = false := hcarry
  rw [hcarry'] at hq
  cases hb : a20 e.bios with
  | none =>
      have hb' : a20 (e.pusha.set .ax 0x2402#16).bios = none := hb
      rw [hb'] at hq
      exact absurd hq.symm (by decide)
  | some b => exact ⟨b, rfl, h.status (e.pusha.set .ax 0x2402#16) rfl b hb⟩

theorem A20Answers.enabled_iff (h : A20Answers B a20) :
    SaysEnabled B e ↔ a20 e.bios = some true := by
  constructor
  · rintro ⟨hcarry, hal⟩
    obtain ⟨b, hb, hiff⟩ := h.not_error hcarry
    cases b with
    | false => exact absurd (hiff.2 rfl) hal
    | true => exact hb
  · intro hon
    have hcarry : (statusAsked B e).carry = false := by
      have hq := h.carry (e.pusha.set .ax 0x2402#16) rfl
      have hon' : a20 (e.pusha.set .ax 0x2402#16).bios = some true := hon
      rw [hon'] at hq
      exact hq
    obtain ⟨b, hb, hiff⟩ := h.not_error hcarry
    rw [hon] at hb
    cases hb
    exact ⟨hcarry, fun hal => absurd (hiff.1 hal) (by decide)⟩

/-- After one 'disabled' answer the save of the first entry is on top. -/
theorem visit_one_top (hS : A20Services B own depth)
    (hoff : Off own (e.seg .ss) (e.reg .sp) 16)
    (hdepth : depth + 16 ≤ 65536) :
    (visit B e 1).word .ss ((visit B e 1).reg .sp) = e.reg .di := by
  obtain ⟨hsp, hss, hmem⟩ := statusAsked_spec hS e
  obtain ⟨hsp', hss', hmem'⟩ :=
    hS ((statusAsked B e).set .ax 0x2401#16) (Or.inr rfl)
  have hheld : e.pusha.Held (e.savedWords ++ []) :=
    e.pusha_held trivial (by decide)
  have hback : e.pusha.reg .sp + 16#16 = e.reg .sp := by
    rw [pusha_sp]
    exact BitVec.sub_add_cancel _ _
  have hvsp : (visit B e 1).reg .sp = e.pusha.reg .sp :=
    hsp'.trans (hsp.trans (pusha_sp e).symm)
  have hvss : (visit B e 1).seg .ss = e.pusha.seg .ss := hss'.trans hss
  have hsame : ∀ k < 2, (visit B e 1).mem (linear (e.pusha.seg .ss)
        (e.pusha.reg .sp + BitVec.ofNat 16 k))
      = e.pusha.mem (linear (e.pusha.seg .ss)
        (e.pusha.reg .sp + BitVec.ofNat 16 k)) := by
    intro k hk
    have hup : Off own (e.pusha.seg .ss) (e.pusha.reg .sp + 16#16) 16 := by
      rw [pusha_seg, hback]
      exact hoff
    have hfix : Fixed own depth e.pusha (linear (e.pusha.seg .ss)
        (e.pusha.reg .sp + BitVec.ofNat 16 k)) :=
      fixed_above (j := 16) hup (by omega) hdepth
    exact (hmem' _ (hfix.congr hss (hsp.trans (pusha_sp e).symm))).trans
      (hmem _ hfix)
  show load _ ((visit B e 1).seg .ss) _ 2 = _
  rw [hvss, hvsp]
  exact (load_congr hsame).trans hheld.1

/-- The call comes back with A20 on. -/
theorem call_check_a20_gate (hB : Teletype B own depth)
    (hS : A20Services B own depth)
    (hds : ∀ q, (B 0x15#8 q).seg .ds = q.seg .ds) (ho : Outlying own)
    (hmax : depth + 58 ≤ 0x6000) (hfuel : 30 < fuel) (hrounds : 0 < rounds)
    (h : Staged L greeting c) (hon : SaysEnabled B (c.push back)) :
    ∃ d, c.call back (check_a20_gate B L.a20 fuel rounds) = .ok d
      ∧ Going own (depth + 58) c d := by
  obtain ⟨hcarry, hal⟩ := hon
  obtain ⟨hsp, hss, hmem⟩ := statusAsked_spec hS (c.push back)
  obtain ⟨u, hu⟩ : ∃ u, statusAsked B (c.push back) = u := ⟨_, rfl⟩
  rw [hu] at hcarry hal hsp hss hmem
  have huds : u.seg .ds = c.seg .ds := by
    rw [← hu]
    exact hds _
  have husp : u.reg .sp = (c.push back).pusha.reg .sp :=
    hsp.trans (pusha_sp _).symm
  have hdown : (c.push back).pusha.reg .sp
      = c.reg .sp - BitVec.ofNat 16 18 := by
    rw [pusha_sp, push_sp]
    apply BitVec.eq_of_toNat_eq
    simp only [BitVec.toNat_sub, BitVec.toNat_ofNat]
    omega
  -- the message, from main's frame down to the one it is printed from
  have hempty : 0#8 ∉ ([] : List (BitVec 8))
      ∧ ([] : List (BitVec 8)).length < fuel :=
    ⟨List.not_mem_nil, Nat.lt_of_le_of_lt (Nat.zero_le 30) hfuel⟩
  obtain ⟨hz, hlen⟩ := texts_fit (L := L) hempty hfuel
    (x := (L.a20.a20_enabled_msg, a20OnText))
    (by simp only [secondTexts, List.mem_append, List.mem_cons, true_or,
      or_true])
  have htext : (L.a20.a20_enabled_msg, a20OnText)
      ∈ secondTexts L greeting := by
    simp only [secondTexts, List.mem_append, List.mem_cons, true_or, or_true]
  have hmain : Lasting own (depth + 36) c L.a20.a20_enabled_msg
      (a20OnText ++ [0#8]) := h.lasting ho (by omega) (text_bytes htext)
  have hsaved : Lasting own (depth + 18) (c.push back).pusha
      L.a20.a20_enabled_msg (a20OnText ++ [0#8]) := by
    refine Lasting.below (j := 18) hmain rfl rfl hdown fun b hb => ?_
    rw [pusha_mem, push_mem]
    · exact fun hun => hb (hun.mono (by omega))
    · exact fun hun => hb (Under.of_sub (j := 2) hun)
  have hlast : Lasting own (depth + 18) (u.set .si L.a20.a20_enabled_msg)
      L.a20.a20_enabled_msg (a20OnText ++ [0#8]) :=
    hsaved.next (hmem.mono (by omega)) huds hss husp
  have hoff : Off own (c.seg .ss) (c.reg .sp) 36 := h.off ho (by omega)
  obtain ⟨w, hw, hsteady, hprinted⟩ := call_bios_print hB
    (L.a20.back .enabled) hlen hz hlast (by
      show Off own (u.seg .ss) (u.reg .sp) 18
      rw [hss, husp, hdown]
      exact Off.below (j := 18) (n := 18) hoff) (by omega)
  have hwsp : w.reg .sp = (c.push back).pusha.reg .sp :=
    (congrFun hsteady.reg .sp).trans husp
  have hwmem : (c.push back).pusha.Spares own (depth + 18) w := by
    intro b hb
    have hfix : (u.set .si L.a20.a20_enabled_msg).Fixed own (depth + 18) b :=
      hb.congr hss husp
    exact (hsteady.mem b hfix).trans (hmem b (hb.mono (by omega)))
  obtain ⟨k, rfl⟩ : ∃ k, rounds = k + 1 := ⟨rounds - 1, by omega⟩
  have hrun : check_a20_gate B L.a20 fuel (k + 1) (c.push back)
      = .ok w.popa.ret := by
    have hstep : check_a20_gate B L.a20 fuel (k + 1) (c.push back)
        = if u.carry then check_a20_error B L.a20 fuel u
          else if u.low8 .ax = 0#8 then
            enable_a20 B L.a20 fuel (check_a20_gate B L.a20 fuel k) u
          else a20_skip B L.a20 fuel u := by
      rw [← hu]
      rfl
    rw [hstep, hcarry, if_neg Bool.false_ne_true, if_neg hal]
    unfold a20_skip
    dsimp only
    rw [hw]
    rfl
  have hret : (c.push back).Returns own (depth + 34) w.popa.ret := by
    refine leave_returns (n := depth + 18) ?_ (hwsp.trans (pusha_sp _)) hwmem
      ?_ (by omega)
    · exact (congrFun hprinted.seg .ss).trans hss
    · rw [push_sp, BitVec.sub_add_cancel]
      exact hoff.mono (by omega)
  obtain ⟨hcall, hall⟩ := call_steady hrun hret
  exact ⟨_, hcall, Going.of_steady hall (by omega)
    ((congrFun hprinted.seg .ds).trans huds)⟩

/-- And with nothing else: where A20 has to be enabled first, the routine
comes back to DI. -/
theorem call_check_a20_gate_inv (hB : Teletype B own depth)
    (hS : A20Services B own depth) (hA : A20Answers B a20)
    (ho : Outlying own) (hmax : depth + 58 ≤ 0x6000)
    (h : Staged L greeting c) (hdi : c.reg .di ≠ back)
    (hcall : c.call back (check_a20_gate B L.a20 fuel rounds) = .ok d) :
    a20 c.bios = some true := by
  obtain ⟨hrun, hip⟩ := call_inv hcall
  obtain ⟨k, hans, hskip⟩ := run_answers rounds _ hrun
  have hoff : Off own (c.seg .ss) (c.reg .sp) 34 := h.off ho (by omega)
  cases k with
  | zero =>
      have hon : SaysEnabled B (c.push back) := hans.enabled
      have hanswer := hA.enabled_iff.1 hon
      rwa [push_bios] at hanswer
  | succ k =>
      cases k with
      | zero =>
          -- one enable: the word under the save is the first entry's DI
          have htop := visit_one_top (e := c.push back) hS
            (Off.below (j := 2) (n := 16) (hoff.mono (by omega))) (by omega)
          obtain ⟨vsp, vss⟩ := visit_spec hS (c.push back) 1
          obtain ⟨-, hpop⟩ := skip_spec hB hS hskip
          obtain ⟨hto, -⟩ := hpop (by
            rw [vss, vsp, push_sp]
            have hback : c.reg .sp - 2#16 - BitVec.ofNat 16 (16 * 1) + 2#16
                = c.reg .sp - BitVec.ofNat 16 16 := by
              apply BitVec.eq_of_toNat_eq
              simp only [BitVec.toNat_sub, BitVec.toNat_add,
                BitVec.toNat_ofNat]
              omega
            rw [hback]
            exact Off.below (j := 16) (n := 18) hoff) (by omega)
          exact absurd (htop.symm.trans (hto.symm.trans hip)) hdi
      | succ k =>
          -- the second answer contradicts the enable before it
          have hon := hA.enable ((statusAsked B (c.push back)).set .ax
            0x2401#16) rfl (hans.enable 0 (by omega))
          obtain ⟨hcarry, hal⟩ := hans.disabled 1 (by omega)
          have henabled : SaysEnabled B (visit B (c.push back) 1) :=
            hA.enabled_iff.2 hon
          exact absurd hal henabled.2

-- ============================================================ the long mode

/-- The call comes back where the code finds what it asks for. -/
theorem call_check_long_mode_goes (hB : Teletype B own depth)
    (hid : KeepsId B) (ho : Outlying own) (hmax : depth + 58 ≤ 0x6000)
    (hfuel : 30 < fuel) (h : Staged L greeting c)
    (hpass : P.toggles = true ∧ LeavesPass P) (back : BitVec 16) :
    ∃ d, c.call back (check_long_mode P B L.mode fuel) = .ok d
      ∧ Going own (depth + 58) c d := by
  have hworded : Worded own (depth + 58) L.mode c :=
    ⟨fun m hm => h.lasting ho hmax
      (text_bytes (List.mem_append_right _ hm)), h.off ho hmax⟩
  obtain ⟨hopen, -⟩ := call_check_long_mode (P := P) hB hid hworded hfuel
    (by omega) back
  obtain ⟨d, hd, hp⟩ := hopen hpass
  exact ⟨d, hd, Going.of_steady hp.steady (Nat.le_refl _)
    (congrFun hp.seg .ds)⟩

-- ================================================================= the map

/-- Bytes outside of [1000h, 30000h). -/
def Outside (own : BitVec 64 → Prop) : Prop :=
  ∀ b, own b → b.toNat < 0x1000 ∨ 0x30000 ≤ b.toNat

theorem Outside.outlying (ho : Outside own) : Outlying own := by
  intro b hb
  rcases ho b hb with hlt | hge
  · exact Or.inl (by omega)
  · exact Or.inr (by omega)

theorem inMap_toNat {b : BitVec 64} (h : InMap b) :
    0x20000 ≤ b.toNat ∧ b.toNat < 0x30000 := by
  obtain ⟨o, rfl⟩ := h
  have ho := o.isLt
  rw [linear_toNat]
  show _ ≤ 16 * 0x2000 + _ ∧ 16 * 0x2000 + _ < _
  omega

theorem Outside.map (ho : Outside own) : Outlying (ownMap own) := by
  rintro b (hob | hmap)
  · exact ho.outlying b hob
  · exact Or.inr (inMap_toNat hmap).1

/-- The regions `es` and their number in the region segment. -/
structure Mapped (es : List Region) (m : Mem) : Prop where
  count : load m MEM_REGIONS_SEGMENT PTR_MEM_REGIONS_COUNT 2
    = BitVec.ofNat 16 es.length
  regions : ∀ i (h : i < es.length),
    RegionAt m MEM_REGIONS_SEGMENT (slot i) es[i]

theorem Mapped.congr {es : List Region} {m m' : Mem} (h : Mapped es m)
    (hm : ∀ b, InMap b → m' b = m b) : Mapped es m' := by
  refine ⟨?_, fun i hi => (h.regions i hi).congr fun k _ => hm _ ⟨_, rfl⟩⟩
  rw [load_congr fun k _ => hm _ ⟨_, rfl⟩]
  exact h.count

/-- The stack is not in the region segment. -/
theorem Staged.apart (h : Staged L greeting c) (ho : Outside own)
    (hn : n + 2 ≤ 0x6000) (back : BitVec 16) :
    Apart own n (c.push back) := by
  refine ⟨fun o hob => ?_, fun o hu => ?_⟩
  · obtain ⟨hlow, hhigh⟩ := inMap_toNat ⟨o, rfl⟩
    rcases ho _ hob with hlt | hge
    · omega
    · omega
  · obtain ⟨hlow, -⟩ := inMap_toNat ⟨o, rfl⟩
    have hstack := h.under (by omega) (Under.of_sub (j := 2) hu)
    omega

/-- `call memory_scanner`. -/
theorem call_memory_scanner {es : List Region}
    (hserves : Serves B own depth .last es c.bios 0#32)
    (hds : ∀ q, (B 0x15#8 q).seg .ds = q.seg .ds) (ho : Outside own)
    (hmax : depth + 58 ≤ 0x6000) (hlen : es.length ≤ 2559)
    (hrounds : es.length ≤ rounds) (h : Staged L greeting c)
    (back : BitVec 16) :
    ∃ d, c.call back (memory_scanner B L.map fuel rounds) = .ok d
      ∧ Going (ownMap own) (depth + 58) c d ∧ Mapped es d.mem := by
  have hoff : Off (ownMap own) ((c.push back).seg .ss)
      ((c.push back).reg .sp + 2#16) 18 := by
    rw [push_sp, BitVec.sub_add_cancel]
    exact h.off ho.map (by omega)
  obtain ⟨d, hd, hret, hcount, hregions, -⟩ : ∃ d,
      memory_scanner B L.map fuel rounds (c.push back) = .ok d ∧ _ :=
    memory_scanner_spec hserves hlen (h.apart ho (by omega) back) hoff
      (by omega) hrounds
  have hdds := memory_scanner_ds hds hd
  rw [push_seg] at hdds
  obtain ⟨hcall, hsteady⟩ := call_steady hd hret
  exact ⟨d, hcall, Going.of_steady hsteady (by omega) hdds, hcount, hregions⟩

/-- No list is empty and ends with EBX zero: the first answer would have to
be none. -/
theorem serves_nonempty {es : List Region}
    (h : Serves B own depth .last es c.bios 0#32) : 1 ≤ es.length := by
  cases es with
  | nil =>
      have hanswer := h (question (c.setWide .bx 0#32)) rfl
        ((question_bx _).trans (wide_setWide _ _ _)) (question_asks _)
      exact absurd hanswer id
  | cons e es => exact Nat.le_add_left 1 _

-- --------------------------------------------------------------- the printer

/-- A routine that comes back with the caller's DS, if it comes back. -/
def KeepsDs (f : Pc ω → Outcome (Pc ω)) : Prop :=
  ∀ c d, f c = .ok d → d.seg .ds = c.seg .ds

theorem KeepsDs.call {f : Pc ω → Outcome (Pc ω)} (h : KeepsDs f)
    (hc : c.call back f = .ok d) : d.seg .ds = c.seg .ds :=
  h (c.push back) d (call_inv hc).1

theorem bios_print_ds (hB : Teletype B own depth) :
    KeepsDs (bios_print B fuel) :=
  fun _ _ h => congrFun (bios_print_frame hB h).1 .ds

/-- The character of a round goes out through the teletype service. -/
theorem hexa_round_ds (hB : Teletype B own depth) (H : Hexa) (c : Pc ω) :
    (hexa_round B H c).seg .ds = c.seg .ds := by
  obtain ⟨t, ht⟩ : ∃ t : Pc ω, t = (((c.setWide .si (c.wide .bx)).setWide .si
      ((c.setWide .si (c.wide .bx)).wide .si &&& 0xF0000000#32)) : Pc ω) :=
    ⟨_, rfl⟩
  obtain ⟨u, hu⟩ : ∃ u : Pc ω, u = (((t.setWide .si (t.wide .si
      >>> 0x1C)).reads .ds (H.hexa_digits + (t.setWide .si (t.wide .si
        >>> 0x1C)).reg .si) 1).setLow8 .ax ((t.setWide .si (t.wide .si
          >>> 0x1C)).byte .ds (H.hexa_digits + (t.setWide .si (t.wide .si
            >>> 0x1C)).reg .si))).setHigh8 .ax 0x0E#8 := ⟨_, rfl⟩
  have hquiet := hB u (by
    rw [hu]
    simp only [high8, setHigh8, set_reg, if_true]
    exact BitVec.extractLsb'_append_eq_left)
  have hseg : u.seg .ds = c.seg .ds := by
    rw [hu, ht]
    rfl
  have hround : (hexa_round B H c).seg .ds = (B 0x10#8 u).seg .ds := by
    rw [hu, ht]
    rfl
  rw [hround, hquiet.seg, hseg]

theorem bios_print_hexa_ds (hB : Teletype B own depth) (H : Hexa) :
    KeepsDs ( bios_print_hexa B H fuel) := by
  intro c d h
  obtain ⟨e, hloop, hd⟩ := bind_inv h
  cases hd
  refine Loop.attempt_preserves (P := fun t => t.seg .ds = c.seg .ds)
    (fun s s' hs hrun => ?_) rfl hloop
  cases hrun
  exact (hexa_round_ds hB H s).trans hs

theorem bios_print_hexa_with_prefix_ds (hB : Teletype B own depth)
    (H : Hexa) : KeepsDs ( bios_print_hexa_with_prefix B H fuel) := by
  intro c d h
  obtain ⟨u, h₁, h⟩ := bind_inv h
  obtain ⟨v, h₂, hd⟩ := bind_inv h
  cases hd
  have e₁ := (bios_print_ds hB).call h₁
  have e₂ := (bios_print_hexa_ds hB H).call h₂
  exact e₂.trans e₁

theorem print_between_ds (hB : Teletype B own depth) (msg : BitVec 16) :
    KeepsDs (print_between B fuel msg back) := by
  intro c d h
  obtain ⟨u, h₁, hd⟩ := bind_inv h
  cases hd
  have e₁ := (bios_print_ds hB).call h₁
  exact e₁

theorem print_region_ds (hB : Teletype B own depth) (K : MapLabels) :
    KeepsDs (print_region B K fuel) := by
  intro c d h
  obtain ⟨u₁, h₁, h⟩ := bind_inv h
  obtain ⟨u₂, h₂, h⟩ := bind_inv h
  obtain ⟨u₃, h₃, h⟩ := bind_inv h
  obtain ⟨u₄, h₄, h⟩ := bind_inv h
  obtain ⟨u₅, h₅, h⟩ := bind_inv h
  obtain ⟨u₆, h₆, h⟩ := bind_inv h
  obtain ⟨u₇, h₇, h⟩ := bind_inv h
  obtain ⟨u₈, h₈, hd⟩ := bind_inv h
  cases hd
  have hprefixed : KeepsDs ( bios_print_hexa_with_prefix B K.hexa fuel) :=
    bios_print_hexa_with_prefix_ds hB K.hexa
  have hplain : KeepsDs ( bios_print_hexa B K.hexa fuel) :=
    bios_print_hexa_ds hB K.hexa
  have e₁ := hprefixed.call h₁
  have e₂ := hplain.call h₂
  have e₃ := print_between_ds hB _ _ _ h₃
  have e₄ := hprefixed.call h₄
  have e₅ := hplain.call h₅
  have e₆ := print_between_ds hB _ _ _ h₆
  have e₇ := hprefixed.call h₇
  have e₈ := print_between_ds hB _ _ _ h₈
  calc u₈.seg .ds = u₇.seg .ds := e₈
    _ = u₆.seg .ds := e₇
    _ = u₅.seg .ds := e₆
    _ = u₄.seg .ds := e₅
    _ = u₃.seg .ds := e₄
    _ = u₂.seg .ds := e₃
    _ = u₁.seg .ds := e₂
    _ = c.seg .ds := e₁

theorem print_memory_regions_ds (hB : Teletype B own depth) (K : MapLabels) :
    KeepsDs (print_memory_regions B K fuel rounds) := by
  intro c d h
  obtain ⟨u₁, h₁, h⟩ := bind_inv h
  obtain ⟨u₂, h₂, h⟩ := bind_inv h
  obtain ⟨u₃, h₃, hd⟩ := bind_inv h
  cases hd
  have e₁ := (bios_print_hexa_ds hB K.hexa).call h₁
  have e₂ := (bios_print_ds hB).call h₂
  have e₃ : u₃.seg .ds = u₂.seg .ds := by
    refine Loop.attempt_preserves (P := fun t => t.seg .ds = u₂.seg .ds)
      (fun s s' hs hrun => ?_) rfl h₃
    exact (print_region_ds hB K s s' hrun).trans hs
  calc u₃.seg .ds = u₂.seg .ds := e₃
    _ = u₁.seg .ds := e₂
    _ = c.seg .ds := e₁

/-- `call print_memory_regions`, however many lines that is. -/
theorem call_print_memory_regions {es : List Region}
    (hB : Teletype B own depth) (ho : Outside own)
    (hmax : depth + 58 ≤ 0x6000) (hfuel : 30 < fuel)
    (hpos : 1 ≤ es.length) (hlen : es.length ≤ 2559)
    (hrounds : 2 ^ 32 ≤ rounds) (h : Staged L greeting c)
    (hm : Mapped es c.mem) (back : BitVec 16) :
    ∃ d, c.call back (print_memory_regions B L.map fuel rounds) = .ok d
      ∧ Going own (depth + 58) c d := by
  have hlast : ∀ {o : BitVec 16} {bytes : List (BitVec 8)},
      (o, bytes) ∈ secondBytes L greeting →
      Lasting own (depth + 16 + 36) (c.push back) o bytes := fun hx =>
    Lasting.below (j := 2) (h.lasting ho.outlying (by omega) hx) rfl rfl rfl
      fun b hb => c.push_mem back hb
  have hready : Ready own (depth + 16) L.map (c.push back) := by
    refine ⟨hlast ?_, hlast (text_bytes (x := (L.map.hexa.hexa_prefix,
        hexaPrefix)) ?_), hlast (text_bytes (x := (L.map.double_space,
        doubleSpace)) ?_), hlast (text_bytes (x := (L.map.newline, crlf)) ?_),
      ?_, h.ds⟩
    · exact List.mem_append_right _ List.mem_cons_self
    · simp only [secondTexts, List.mem_append, List.mem_cons, true_or, or_true]
    · simp only [secondTexts, List.mem_append, List.mem_cons, true_or, or_true]
    · simp only [secondTexts, List.mem_append, List.mem_cons, true_or, or_true]
    · exact Off.below (j := 2) (n := 36) (h.off ho.outlying (by omega))
  have hmapped : Mapped es (c.push back).mem := by
    refine hm.congr fun b hb => c.push_mem back fun hu => ?_
    obtain ⟨hlow, -⟩ := inMap_toNat hb
    have hstack := h.under (by omega) hu
    omega
  have hcount := lineCount_toNat (c := c.push back) (by omega) hmapped.count
  have hbound := (lineCount (c.push back)).isLt
  have hlines : (lineCount (c.push back)).toNat ≤ rounds := by omega
  have height : 8 ≤ fuel := by omega
  have hoff : Off own ((c.push back).seg .ss)
      ((c.push back).reg .sp + 2#16) 54 := by
    rw [push_sp, BitVec.sub_add_cancel]
    exact h.off ho.outlying (by omega)
  obtain ⟨d, hd, hret, -, -⟩ := print_memory_regions_spec hB hready hoff
    (h.apart ho (by omega) back) height (by omega) (by omega) hlines
  have hds := print_memory_regions_ds hB L.map _ _ hd
  rw [push_seg] at hds
  obtain ⟨hcall, hsteady⟩ := call_steady hd hret
  exact ⟨d, hcall, Going.of_steady hsteady (by omega) hds⟩

-- ============================================================ main's parts

/-- The BIOS of the second stage: printing, the screen mode, a key, A20, and
the memory map. -/
structure SecondBios (B : Bios ω) (own : BitVec 64 → Prop) (depth : Nat)
    (a20 : ω → Option Bool) (fin : Ending) (es : List Region) : Prop where
  teletype : Teletype B own depth
  id : KeepsId B
  mode : ∀ c : Pc ω, c.high8 .ax = 0#8 → Quiet own depth c (B 0x10#8 c)
  key : ∀ c : Pc ω, c.high8 .ax = 0#8 → Quiet own depth c (B 0x16#8 c)
  services : A20Services B own depth
  answers : A20Answers B a20
  video : ∀ c, a20 (B 0x10#8 c).bios = a20 c.bios
  keyboard : ∀ c, a20 (B 0x16#8 c).bios = a20 c.bios
  ds : ∀ c, (B 0x15#8 c).seg .ds = c.seg .ds
  map : ∀ w, Serves B own depth fin es w 0#32

/-- Memory, depth and bounds, for all of main. -/
structure Room (own : BitVec 64 → Prop) (depth fuel rounds : Nat)
    (greeting : List (BitVec 8)) (es : List Region) : Prop where
  outside : Outside own
  screen : ∀ b, OnScreen b → own b
  depth : depth + 58 ≤ 0x6000
  greeting : 0#8 ∉ greeting ∧ greeting.length < fuel
  fuel : 2000 ≤ fuel
  rounds : 2 ^ 32 ≤ rounds
  regions : es.length ≤ 2559

variable {fin : Ending} {es : List Region}

theorem print_loop_a20 (hv : ∀ c, a20 (B 0x10#8 c).bios = a20 c.bios) :
    ∀ (fuel : Nat) (c d : Pc ω), print_loop B fuel c = .ok d →
    a20 d.bios = a20 c.bios := by
  intro fuel
  induction fuel with
  | zero =>
      intro c d h
      cases h
  | succ fuel ih =>
      intro c d h
      simp only [print_loop] at h
      split at h
      · cases h
        rfl
      · exact (ih _ d h).trans (hv _)

theorem say_a20 (hv : ∀ c, a20 (B 0x10#8 c).bios = a20 c.bios)
    {call : SecondCall} {msg : BitVec 16}
    (h : say B L fuel call msg c = .ok d) : a20 d.bios = a20 c.bios := by
  obtain ⟨hprint, -⟩ := call_inv h
  obtain ⟨e, hloop, hd⟩ := bind_inv hprint
  cases hd
  have hkept := print_loop_a20 hv fuel _ e hloop
  exact hkept

theorem key_a20 (hk : ∀ c, a20 (B 0x16#8 c).bios = a20 c.bios)
    {call : SecondCall} (h : key B L call c = .ok d) :
    a20 d.bios = a20 c.bios := by
  obtain ⟨hkey, -⟩ := call_inv h
  cases hkey
  exact hk _

theorem cls_a20 (hv : ∀ c, a20 (B 0x10#8 c).bios = a20 c.bios)
    (h : c.call back (bios_cls B) = .ok d) : a20 d.bios = a20 c.bios := by
  obtain ⟨hcls, -⟩ := call_inv h
  cases hcls
  exact hv _

section
variable (hB : SecondBios B own depth a20 fin es)
  (hR : Room own depth fuel rounds greeting es)
include hB hR

/-- A text by its place in the list. -/
theorem Room.say (h : Staged L greeting c) (call : SecondCall)
    {x : BitVec 16 × List (BitVec 8)} (hx : x ∈ secondTexts L greeting) :
    ∃ d, SecondStage.say B L fuel call x.1 c = .ok d
      ∧ Going own (depth + 58) c d ∧ Staged L greeting d := by
  have hfuel := hR.fuel
  obtain ⟨d, hd, hg⟩ := say_spec hB.teletype hR.outside.outlying hR.depth h
    call hx (texts_fit hR.greeting (by omega) hx)
  exact ⟨d, hd, hg, h.next hg hR.outside.outlying hR.depth⟩

theorem Room.key (h : Staged L greeting c) (call : SecondCall) :
    ∃ d, SecondStage.key B L call c = .ok d
      ∧ Going own (depth + 58) c d ∧ Staged L greeting d := by
  obtain ⟨d, hd, hg⟩ := key_spec hB.key hR.outside.outlying hR.depth h call
  exact ⟨d, hd, hg, h.next hg hR.outside.outlying hR.depth⟩

theorem greets_spec (h : Staged L greeting c) :
    ∃ d, second_stage_greets B L fuel c = .ok d
      ∧ Going own (depth + 58) c d ∧ a20 d.bios = a20 c.bios := by
  have hgreet : (L.greeting_msg, greeting) ∈ secondTexts L greeting :=
    List.mem_cons_self
  have hoff : (L.a20_not_enabled_msg, a20OffText)
      ∈ secondTexts L greeting := List.mem_cons_of_mem _ List.mem_cons_self
  have hpress : (L.press_any_key, pressText) ∈ secondTexts L greeting :=
    List.mem_cons_of_mem _ (List.mem_cons_of_mem _ List.mem_cons_self)
  obtain ⟨u₁, h₁, g₁⟩ := cls_spec hB.mode hR.outside.outlying hR.depth h
    (L.after .cls)
  have s₁ := h.next g₁ hR.outside.outlying hR.depth
  obtain ⟨u₂, h₂, g₂, s₂⟩ := hR.say hB s₁ .greeting hgreet
  obtain ⟨u₃, h₃, g₃, s₃⟩ := hR.key hB s₂ .greetingKey
  obtain ⟨u₄, h₄, g₄, s₄⟩ := hR.say hB s₃ .a20Off hoff
  obtain ⟨u₅, h₅, g₅, s₅⟩ := hR.say hB s₄ .a20Press hpress
  obtain ⟨u₆, h₆, g₆, -⟩ := hR.key hB s₅ .a20Key
  refine ⟨u₆, ?_, ?_, ?_⟩
  · unfold second_stage_greets
    simp only [h₁, h₂, h₃, h₄, h₅, h₆, bind, Except.bind]
  · exact ((((g₁.trans g₂).trans g₃).trans g₄).trans g₅).trans g₆
  · calc a20 u₆.bios = a20 u₅.bios := key_a20 hB.keyboard h₆
      _ = a20 u₄.bios := say_a20 hB.video h₅
      _ = a20 u₃.bios := say_a20 hB.video h₄
      _ = a20 u₂.bios := key_a20 hB.keyboard h₃
      _ = a20 u₁.bios := say_a20 hB.video h₂
      _ = a20 c.bios := cls_a20 hB.video h₁

theorem checks_spec (h : Staged L greeting c)
    (hon : a20 c.bios = some true) (hpass : P.toggles = true ∧ LeavesPass P) :
    ∃ d, second_stage_checks P B L fuel rounds c = .ok d
      ∧ Going own (depth + 58) c d := by
  have hfuel : 30 < fuel := Nat.lt_of_lt_of_le (by decide) hR.fuel
  have hrounds : 0 < rounds := Nat.lt_of_lt_of_le (by decide) hR.rounds
  have hpress : (L.press_any_key, pressText) ∈ secondTexts L greeting :=
    List.mem_cons_of_mem _ (List.mem_cons_of_mem _ List.mem_cons_self)
  have henabled : SaysEnabled B (c.push (L.after .a20)) :=
    hB.answers.enabled_iff.2 hon
  obtain ⟨u₁, h₁, g₁⟩ := call_check_a20_gate hB.teletype hB.services hB.ds
    hR.outside.outlying hR.depth hfuel hrounds h
    henabled
  have s₁ := h.next g₁ hR.outside.outlying hR.depth
  obtain ⟨u₂, h₂, g₂, s₂⟩ := hR.say hB s₁ .modePress hpress
  obtain ⟨u₃, h₃, g₃, s₃⟩ := hR.key hB s₂ .modeKey
  obtain ⟨u₄, h₄, g₄⟩ := call_check_long_mode_goes hB.teletype hB.id
    hR.outside.outlying hR.depth hfuel s₃ hpass (L.after .mode)
  have s₄ := s₃.next g₄ hR.outside.outlying hR.depth
  obtain ⟨u₅, h₅, g₅, s₅⟩ := hR.say hB s₄ .mapPress hpress
  obtain ⟨u₆, h₆, g₆, -⟩ := hR.key hB s₅ .mapKey
  refine ⟨u₆, ?_, ?_⟩
  · unfold second_stage_checks
    simp only [h₁, h₂, h₃, h₄, h₅, h₆, bind, Except.bind]
  · exact ((((g₁.trans g₂).trans g₃).trans g₄).trans g₅).trans g₆

/-- The checks let nothing else through. -/
theorem checks_inv (h : Staged L greeting c)
    (hdi : c.reg .di ≠ L.after .a20)
    (hrun : second_stage_checks P B L fuel rounds c = .ok d) :
    a20 c.bios = some true ∧ P.toggles = true ∧ LeavesPass P := by
  have hfuel : 30 < fuel := Nat.lt_of_lt_of_le (by decide) hR.fuel
  have hrounds : 0 < rounds := Nat.lt_of_lt_of_le (by decide) hR.rounds
  have hpress : (L.press_any_key, pressText) ∈ secondTexts L greeting :=
    List.mem_cons_of_mem _ (List.mem_cons_of_mem _ List.mem_cons_self)
  obtain ⟨w₁, hw₁, hrun⟩ := bind_inv hrun
  have hon := call_check_a20_gate_inv hB.teletype hB.services hB.answers
    hR.outside.outlying hR.depth h hdi hw₁
  refine ⟨hon, ?_⟩
  obtain ⟨u₁, h₁, g₁⟩ := call_check_a20_gate hB.teletype hB.services hB.ds
    hR.outside.outlying hR.depth hfuel hrounds h
    (hB.answers.enabled_iff.2 hon)
  obtain rfl : w₁ = u₁ := Except.ok.inj (hw₁.symm.trans h₁)
  have s₁ := h.next g₁ hR.outside.outlying hR.depth
  obtain ⟨u₂, h₂, -, s₂⟩ := hR.say hB s₁ .modePress hpress
  obtain ⟨u₃, h₃, -, s₃⟩ := hR.key hB s₂ .modeKey
  have hworded : Worded own (depth + 58) L.mode u₃ :=
    ⟨fun m hm => s₃.lasting hR.outside.outlying hR.depth
      (text_bytes (List.mem_append_right _ hm)),
      s₃.off hR.outside.outlying hR.depth⟩
  have hmax := hR.depth
  obtain ⟨-, hshut⟩ := call_check_long_mode (P := P) hB.teletype hB.id hworded
    hfuel (by omega) (L.after .mode)
  by_contra hfail
  simp only [h₂, h₃, hshut hfail, bind, Except.bind, reduceCtorEq] at hrun

theorem maps_spec (h : Staged L greeting c) (hlast : fin = .last) :
    ∃ d, second_stage_maps B L fuel rounds c = .ok d
      ∧ Going (ownTables (ownMap own)) (depth + 58) c d
      ∧ Mapped es d.mem
      ∧ Table d.mem 0x1000#64 2048 (pageTables 512) := by
  subst hlast
  have ho := hR.outside
  have hfuel : 30 < fuel := Nat.lt_of_lt_of_le (by decide) hR.fuel
  have hpages : 512 ≤ fuel := Nat.le_trans (by decide) hR.fuel
  have hregions := hR.regions
  have hrounds : es.length ≤ rounds :=
    Nat.le_trans (Nat.le_trans hregions (by decide)) hR.rounds
  have hpress : (L.press_any_key, pressText) ∈ secondTexts L greeting :=
    List.mem_cons_of_mem _ (List.mem_cons_of_mem _ List.mem_cons_self)
  obtain ⟨u₁, h₁, g₁, m₁⟩ : ∃ d, c.call (L.after .scan)
      (memory_scanner B L.map fuel rounds) = .ok d ∧ _ :=
    call_memory_scanner (hB.map c.bios) hB.ds ho hR.depth hregions hrounds h
      (L.after .scan)
  have s₁ := h.next g₁ ho.map hR.depth
  -- printing leaves the region segment alone
  have hstill : ∀ {p q : Pc ω}, Staged L greeting p →
      Going own (depth + 58) p q → Mapped es p.mem → Mapped es q.mem := by
    intro p q hp hg hm
    refine hm.congr fun b hb => hg.mem b ⟨fun hob => ?_, fun hu => ?_⟩
    · obtain ⟨hlow, hhigh⟩ := inMap_toNat hb
      rcases ho b hob with hlt | hge
      · omega
      · omega
    · obtain ⟨hlow, -⟩ := inMap_toNat hb
      have hmax := hR.depth
      have hstack := hp.under (by omega) hu
      omega
  obtain ⟨u₂, h₂, g₂, s₂⟩ := hR.key hB s₁ .scanKey
  obtain ⟨u₃, h₃, g₃, s₃⟩ := hR.say hB s₂ .printPress hpress
  have m₃ := hstill s₂ g₃ (hstill s₁ g₂ m₁)
  obtain ⟨u₄, h₄, g₄⟩ := call_print_memory_regions hB.teletype ho hR.depth
    hfuel (serves_nonempty (hB.map c.bios)) hregions hR.rounds s₃ m₃
    (L.after .print)
  have s₄ := s₃.next g₄ ho.outlying hR.depth
  obtain ⟨u₅, h₅, g₅, s₅⟩ := hR.key hB s₄ .tableKey
  have m₅ := hstill s₄ g₅ (hstill s₃ g₄ m₃)
  obtain ⟨u₆, h₆, g₆, htable⟩ := call_build_page_table ho.outlying hpages
    hR.depth s₅ (L.after .table)
  have hown : ∀ b, own b → ownTables (ownMap own) b :=
    fun b hb => Or.inl (Or.inl hb)
  refine ⟨u₆, ?_, ?_, ?_, htable⟩
  · unfold second_stage_maps
    simp only [h₁, h₂, h₃, h₄, h₅, h₆, bind, Except.bind]
  · have hscan : Going (ownTables (ownMap own)) (depth + 58) c u₁ :=
      g₁.widen fun b hb => Or.inl hb
    have hprint := ((g₂.trans g₃).trans (g₄.trans g₅)).widen hown
    refine hscan.trans (hprint.trans (g₆.widen fun b hb => ?_))
    exact hb.imp_left Or.inl
  · refine m₅.congr fun b hb => g₆.mem b ⟨fun hob => ?_, fun hu => ?_⟩
    · obtain ⟨hlow, hhigh⟩ := inMap_toNat hb
      rcases hob with hob | htab
      · rcases ho b hob with hlt | hge
        · omega
        · omega
      · omega
    · obtain ⟨hlow, -⟩ := inMap_toNat hb
      have hmax := hR.depth
      have hstack := s₅.under (by omega) hu
      omega

end

/-- A map that ends otherwise stops the scan. -/
theorem maps_inv (hB : SecondBios B own depth a20 fin es)
    (hrun : second_stage_maps B L fuel rounds c = .ok d) : fin = .last := by
  obtain ⟨w, hw, -⟩ := bind_inv hrun
  obtain ⟨hscan, -⟩ := call_inv hw
  by_contra hfin
  have hserves : Serves B own depth fin es (c.push (L.after .scan)).bios 0#32 :=
    hB.map _
  exact (scanner_control hserves).1 hfin w hscan

-- ============================================================== the hand-over

variable {s t u : Machine ω}

/-- `second_stage` from `call disable_pic` on. -/
def second_stage_end (P : Processor) (B : Bios ω) (L : SecondLabels)
    (fuel : Nat) (s : Machine ω) : Result (Entered ω) := do
  let s ← s.call (L.after .pic) (disable_pic B L.switch fuel)
  let s ← s.call (L.after .idt) (load_idt_descriptor L.switch)
  let s ← s.call (L.after .video) (video_cls_16 fuel)
  let e ← switch_to_long_mode P L.switch
    (s.step fun c => c.push (L.after .switch))
  lm64 e

theorem run_ok {f : Pc ω → Outcome (Pc ω)} (h : f s.pc = .ok c) :
    s.run f = .ok { s with pc := c } := by
  unfold Machine.run
  rw [h]

theorem run_inv {f : Pc ω → Outcome (Pc ω)} (h : s.run f = .ok t) :
    ∃ c, f s.pc = .ok c ∧ t = { s with pc := c } := by
  unfold Machine.run at h
  cases hf : f s.pc with
  | error e =>
      rw [hf] at h
      cases h
  | ok c =>
      rw [hf] at h
      cases h
      exact ⟨c, rfl, rfl⟩

/-- The page tables where they are. -/
theorem table_memory {m m' : Mem} {f : Nat → BitVec 64}
    (h : Table m 0x1000#64 2048 f)
    (hm : ∀ b : BitVec 64, 0x1000 ≤ b.toNat → b.toNat < 0x5000 →
      m' b = m b) : Table m' 0x1000#64 2048 f := by
  intro i hi
  have haddr : (0x1000#64 + BitVec.ofNat 64 (8 * i)).toNat
      = 0x1000 + 8 * i := by
    rw [BitVec.toNat_add, BitVec.toNat_ofNat, BitVec.toNat_ofNat]
    omega
  have hagree : AgreeOn m m' 0x1000 0x5000 := hm
  rw [← h i hi]
  exact read_congr_of_range hagree (by omega) (by omega) (by omega)

/-- A byte of the program beside its stack: tables, image, third stage,
regions. -/
theorem Staged.kept (h : Staged L greeting c) (ho : Outside own)
    (hn : n ≤ 0x6000) {b : BitVec 64}
    (hb : 0x1000 ≤ b.toNat ∧ b.toNat < 0x5000
      ∨ 0xB000 ≤ b.toNat ∧ b.toNat < 0x30000) : c.Fixed own n b := by
  refine ⟨fun hob => ?_, fun hu => ?_⟩
  · rcases ho b hob with hlt | hge
    · omega
    · omega
  · have hstack := h.under (by omega) hu
    omega

/-- Main before `disable_pic`, and after `load_idt_descriptor`. -/
structure Ready64 (own : BitVec 64 → Prop) (depth : Nat) (L : SecondLabels)
    (greeting : List (BitVec 8)) (s t : Machine ω) : Prop where
  staged : Staged L greeting t.pc
  going : Going own (depth + 58) s.pc t.pc
  control : t.control = s.control
  dsLimit : t.dsLimit = s.dsLimit
  idtBase : t.idtBase = 0#32
  idtLimit : t.idtLimit = 0#16
  ports : t.ports = s.ports ++ [(0x21#16, 0xFF#8), (0xA1#16, 0xFF#8)]

/-- What the third stage finds. -/
structure HandedOver (L : SecondLabels) (es : List Region) (s : Machine ω)
    (e : Entered ω) : Prop where
  rip : e.rip = 0x10000#64
  code : e.cs.long = true ∧ e.cs.dpl = 0#2
  control : LongAt L.switch e.machine.control
  identity : ∀ v : BitVec 48,
    walk e.machine.pc.mem (e.machine.control.cr3.setWidth 64) (v.setWidth 64)
      = if v.toNat < 0x200000 then .mapped (v.setWidth 64) else .notPresent
  map : Mapped es e.machine.pc.mem
  third : ∀ b : BitVec 64, 0x10000 ≤ b.toNat → b.toNat < 0x20000 →
    e.machine.pc.mem b = s.pc.mem b
  idt : e.machine.idtBase = 0#32 ∧ e.machine.idtLimit = 0#16
  ports : e.machine.ports
    = s.ports ++ [(0x21#16, 0xFF#8), (0xA1#16, 0xFF#8)]

section
variable (hB : SecondBios B own depth a20 fin es)
  (hR : Room own depth fuel rounds greeting es)
include hB hR

/-- The interrupts off and their table empty. -/
theorem end_starts (h : Staged L greeting s.pc) :
    ∃ t, Ready64 own depth L greeting s t
      ∧ second_stage_end P B L fuel s = (do
        let s ← t.call (L.after .video) (video_cls_16 fuel)
        let e ← switch_to_long_mode P L.switch
          (s.step fun c => c.push (L.after .switch))
        lm64 e) := by
  have ho := hR.outside.outlying
  have hmax := hR.depth
  have hfuel : 30 < fuel := Nat.lt_of_lt_of_le (by decide) hR.fuel
  have htext : (L.switch.pic_disabled_msg, picDisabledText)
      ∈ secondTexts L greeting := by
    simp only [secondTexts, List.mem_append, List.mem_cons, true_or, or_true]
  obtain ⟨t, ht, hsteady, hseg, hmode, hports⟩ := disable_pic_spec
    hB.teletype hfuel (by omega)
    (h.lasting ho (by omega) (text_bytes htext)) (h.off ho (by omega))
  have g₁ : Going own (depth + 58) s.pc t.pc :=
    Going.of_steady hsteady (by omega) (congrFun hseg .ds)
  have s₁ := h.next g₁ ho hmax
  have hidt : (L.switch.IDT_DESCRIPTOR, List.replicate 6 0#8)
      ∈ secondBytes L greeting :=
    List.mem_append_right _ (List.mem_cons_of_mem _ List.mem_cons_self)
  obtain ⟨u, hu, hsteady', hseg', hcontrol, hbase, hlimit, hds, hports'⟩ :=
    load_idt_descriptor_spec
      (s₁.lasting ho (by omega) hidt) (s₁.off ho (by omega))
  have g₂ : Going own (depth + 58) t.pc u.pc :=
    Going.of_steady hsteady' (by omega) (congrFun hseg' .ds)
  refine ⟨u, ⟨s₁.next g₂ ho hmax, g₁.trans g₂, hcontrol.trans hmode.control,
    hds.trans hmode.dsLimit, hbase, hlimit, hports'.trans hports⟩, ?_⟩
  unfold second_stage_end
  rw [ht, ok_bind, hu, ok_bind]

/-- From there the screen is cleared and the mode switched. -/
theorem end_enters (h : Staged L greeting s.pc) (hreal : InRealMode s.control)
    (htable : Table s.pc.mem 0x1000#64 2048 (pageTables 512))
    (hmap : Mapped es s.pc.mem) (hlong : HasLongMode P)
    (hlimit : 0xB8F9F ≤ s.dsLimit.toNat) :
    ∃ e, second_stage_end P B L fuel s = .ok e ∧ HandedOver L es s e := by
  have ho := hR.outside.outlying
  have hmax := hR.depth
  obtain ⟨t, ht, hrun⟩ := end_starts (P := P) hB hR h
  obtain ⟨w, hw, hsteady, hseg, hmode, hports⟩ := video_cls_16_spec
    hR.screen ht.staged.ds hR.fuel
    (by rw [ht.dsLimit]; exact hlimit) (ht.staged.off ho (by omega))
  have g : Going own (depth + 58) t.pc w.pc :=
    Going.of_steady hsteady (by omega) (congrFun hseg .ds)
  have hstaged := ht.staged.next g ho hmax
  obtain ⟨v, hv⟩ : ∃ v : Machine ω,
    v = w.step fun c => c.push (L.after .switch) := ⟨_, rfl⟩
  -- the program's bytes, through all of it
  have hmem : ∀ b : BitVec 64, 0x1000 ≤ b.toNat ∧ b.toNat < 0x5000
      ∨ 0xB000 ≤ b.toNat ∧ b.toNat < 0x30000 → v.pc.mem b = s.pc.mem b := by
    intro b hb
    have hfix : w.pc.Fixed own 2 b := hstaged.kept hR.outside (by omega) hb
    have hpush : v.pc.mem b = w.pc.mem b := by
      rw [hv]
      exact push_mem _ _ hfix.2
    rw [hpush, g.mem b (ht.staged.kept hR.outside hmax hb),
      ht.going.mem b (h.kept hR.outside hmax hb)]
  have hcontrol : v.control = s.control := by
    rw [hv]
    exact hmode.control.trans ht.control
  have hvtable : Table v.pc.mem 0x1000#64 2048 (pageTables 512) :=
    table_memory htable fun b hb hb' => hmem b (Or.inl ⟨hb, hb'⟩)
  obtain ⟨e, he, hin⟩ := switch_spec (P := P) (L := L.switch) (s := v)
    (by rw [hcontrol]; exact hreal) ((longMode_iff P).2 hlong) hvtable
    (by rw [hv]; exact hstaged.ds)
    (h.image.gdt.congr fun b hb hb' => hmem b (Or.inr ⟨by omega, by omega⟩))
  have hemem := hin.beside.mem
  refine ⟨e, ?_, hin.rip, ?_, hin.control, fun x => ?_, ?_, fun b hb hb' => ?_,
    ⟨?_, ?_⟩, ?_⟩
  · rw [hrun, hw, ok_bind, ← hv]
    exact he
  · rw [hin.cs]
    decide
  · have hx : (x.setWidth 64).toNat = x.toNat := by
      have hlt := x.isLt
      rw [BitVec.toNat_setWidth]
      omega
    have hwalk := walk_pageTables hvtable (v := x.setWidth 64)
      (by rw [hx]; exact x.isLt)
    rw [hx] at hwalk
    rw [hemem, hin.control.cr3]
    exact hwalk
  · rw [hemem]
    refine hmap.congr fun b hb => hmem b (Or.inr ?_)
    obtain ⟨hlow, hhigh⟩ := inMap_toNat hb
    omega
  · rw [hemem]
    exact hmem b (Or.inr ⟨by omega, by omega⟩)
  · rw [hin.beside.idtBase, hv]
    exact hmode.idtBase.trans ht.idtBase
  · rw [hin.beside.idtLimit, hv]
    exact hmode.idtLimit.trans ht.idtLimit
  · rw [hin.beside.ports, hv]
    exact hports.trans ht.ports

/-- And it takes both conditions. -/
theorem end_inv {e : Entered ω} (h : Staged L greeting s.pc)
    (hreal : InRealMode s.control)
    (hrun : second_stage_end P B L fuel s = .ok e) :
    HasLongMode P ∧ 0xB8F9F ≤ s.dsLimit.toNat := by
  have ho := hR.outside.outlying
  have hmax := hR.depth
  obtain ⟨t, ht, heq⟩ := end_starts (P := P) hB hR h
  rw [heq] at hrun
  have hlimit : 0xB8F9F ≤ t.dsLimit.toNat := by
    by_contra hlow
    obtain ⟨w, hw, -⟩ := result_inv hrun
    exact video_cls_16_fault ht.staged.ds (by omega) hw
  obtain ⟨w, hw, -, -, hmode, -⟩ := video_cls_16_spec
    hR.screen ht.staged.ds hR.fuel hlimit
    (ht.staged.off ho (by omega))
  rw [hw, ok_bind] at hrun
  refine ⟨?_, by rw [← ht.dsLimit]; exact hlimit⟩
  by_contra hno
  have hlong : longMode P = false := by
    rw [← Bool.not_eq_true, longMode_iff]
    exact hno
  have hfault := switch_faults (P := P) (L := L.switch)
    (s := w.step fun c => c.push (L.after .switch))
    (by rw [show (w.step fun c => c.push (L.after .switch)).control
          = s.control from hmode.control.trans ht.control]; exact hreal) hlong
  rw [hfault] at hrun
  cases hrun

-- =============================================================== the stage

/-- The greeting asks nothing of the machine. -/
theorem second_stage_greeted (hstaged : Staged L greeting s.pc) :
    ∃ d, Going own (depth + 58) s.pc d ∧ a20 d.bios = a20 s.pc.bios
      ∧ second_stage P B L fuel rounds s = (do
        let s ← ({ s with pc := d } : Machine ω).run
          (second_stage_checks P B L fuel rounds)
        let s ← s.run (second_stage_maps B L fuel rounds)
        second_stage_end P B L fuel s) := by
  obtain ⟨d, hd, hg, hkept⟩ := greets_spec hB hR hstaged
  refine ⟨d, hg, hkept, ?_⟩
  unfold second_stage
  rw [run_ok hd, ok_bind]
  rfl

/-- What the two middle parts leave, where they go through. -/
theorem second_stage_middle (hstaged : Staged L greeting s.pc)
    (hon : a20 s.pc.bios = some true)
    (hpass : P.toggles = true ∧ LeavesPass P) (hlast : fin = .last) :
    ∃ d, second_stage P B L fuel rounds s
        = second_stage_end P B L fuel { s with pc := d }
      ∧ Staged L greeting d ∧ Mapped es d.mem
      ∧ Table d.mem 0x1000#64 2048 (pageTables 512)
      ∧ ∀ b : BitVec 64, 0x10000 ≤ b.toNat → b.toNat < 0x20000 →
        d.mem b = s.pc.mem b := by
  have ho := hR.outside
  have hmax := hR.depth
  obtain ⟨d₁, g₁, hkept, hstart⟩ :=
    second_stage_greeted (P := P) hB hR hstaged
  have s₁ := hstaged.next g₁ ho.outlying hmax
  obtain ⟨d₂, h₂, g₂⟩ := checks_spec hB hR s₁ (hkept.trans hon) hpass
  have s₂ := s₁.next g₂ ho.outlying hmax
  obtain ⟨d₃, h₃, g₃, hmap, htable⟩ := maps_spec hB hR s₂ hlast
  have s₃ := s₂.next g₃ (Outlying.tables ho.map) hmax
  refine ⟨d₃, ?_, s₃, hmap, htable, fun b hb hb' => ?_⟩
  · rw [hstart, run_ok (s := { s with pc := d₁ }) h₂, ok_bind,
      run_ok (s := { s with pc := d₂ }) h₃, ok_bind]
  · have f₁ := hstaged.fixed ho.outlying hmax (b := b) (by omega) (by omega)
    have f₂ := s₁.fixed ho.outlying hmax (b := b) (by omega) (by omega)
    have f₃ := s₂.fixed (Outlying.tables ho.map) hmax (b := b) (by omega)
      (by omega)
    rw [g₃.mem b f₃, g₂.mem b f₂, g₁.mem b f₁]

/-- What an arrival says about them. -/
theorem second_stage_passed {e : Entered ω} (hstaged : Staged L greeting s.pc)
    (hdi : s.pc.reg .di ≠ L.after .a20)
    (he : second_stage P B L fuel rounds s = .ok e) :
    a20 s.pc.bios = some true ∧ (P.toggles = true ∧ LeavesPass P)
      ∧ fin = .last := by
  obtain ⟨d₁, g₁, hkept, hstart⟩ :=
    second_stage_greeted (P := P) hB hR hstaged
  have s₁ := hstaged.next g₁ hR.outside.outlying hR.depth
  have hdi₁ : d₁.reg .di ≠ L.after .a20 := by
    rw [g₁.reg .di (by decide)]
    exact hdi
  rw [hstart] at he
  obtain ⟨t₂, ht₂, he⟩ := result_inv he
  obtain ⟨t₃, ht₃, -⟩ := result_inv he
  obtain ⟨d₂, h₂, -⟩ := run_inv ht₂
  obtain ⟨d₃, h₃, -⟩ := run_inv ht₃
  obtain ⟨hon, hpass⟩ := checks_inv hB hR s₁ hdi₁ h₂
  exact ⟨hkept.symm.trans hon, hpass, maps_inv hB h₃⟩

/-- All four conditions are needed. -/
theorem second_stage_needs {e : Entered ω} (hstaged : Staged L greeting s.pc)
    (hreal : InRealMode s.control) (hdi : s.pc.reg .di ≠ L.after .a20)
    (he : second_stage P B L fuel rounds s = .ok e) :
    a20 s.pc.bios = some true ∧ HasLongMode P ∧ fin = .last
      ∧ 0xB8F9F ≤ s.dsLimit.toNat := by
  obtain ⟨hon, hpass, hlast⟩ := second_stage_passed hB hR hstaged hdi he
  obtain ⟨d, hd, hs, -⟩ :=
    second_stage_middle (P := P) hB hR hstaged hon hpass hlast
  rw [hd] at he
  obtain ⟨hlong, hlimit⟩ := end_inv hB hR (s := { s with pc := d }) hs
    hreal he
  exact ⟨hon, hlong, hlast, hlimit⟩

/-- With all four conditions the third stage is reached. -/
theorem second_stage_arrives (hstaged : Staged L greeting s.pc)
    (hreal : InRealMode s.control) (hon : a20 s.pc.bios = some true)
    (hlong : HasLongMode P) (hlast : fin = .last)
    (hlimit : 0xB8F9F ≤ s.dsLimit.toNat) :
    ∃ e, second_stage P B L fuel rounds s = .ok e
      ∧ HandedOver L es s e := by
  have hpass : P.toggles = true ∧ LeavesPass P := by
    obtain ⟨ht, hhigh, hbit⟩ := hlong
    exact ⟨ht, (slt_extended _).2 (by omega), hbit⟩
  obtain ⟨d, hd, hs, hmap, htable, hthird⟩ :=
    second_stage_middle (P := P) hB hR hstaged hon hpass hlast
  obtain ⟨e, he, hover⟩ := end_enters hB hR (s := { s with pc := d }) hs
    hreal htable hmap hlong hlimit
  refine ⟨e, hd.trans he, hover.rip, hover.code, hover.control,
    hover.identity, hover.map, fun b hb hb' => ?_, hover.idt, hover.ports⟩
  exact (hover.third b hb hb').trans (hthird b hb hb')

/-- The second stage from its entry: it reaches the third exactly when A20
is on already, the processor has long mode, the memory map ends with EBX
zero, and the limit of DS reaches the end of the screen; and then it hands
over 64-bit code at 10000h, an identity map of the first two megabytes and
of nothing else, the memory map, the third stage as it was loaded, and
neither interrupts nor a table for them. -/
theorem second_stage_enters_iff (hstaged : Staged L greeting s.pc)
    (hreal : InRealMode s.control) (hdi : s.pc.reg .di ≠ L.after .a20) :
    ((∃ e, second_stage P B L fuel rounds s = .ok e)
        ↔ a20 s.pc.bios = some true ∧ HasLongMode P ∧ fin = .last
          ∧ 0xB8F9F ≤ s.dsLimit.toNat)
      ∧ ∀ e, second_stage P B L fuel rounds s = .ok e →
        HandedOver L es s e := by
  have hneeds : ∀ e, second_stage P B L fuel rounds s = .ok e →
      a20 s.pc.bios = some true ∧ HasLongMode P ∧ fin = .last
        ∧ 0xB8F9F ≤ s.dsLimit.toNat :=
    fun e he => second_stage_needs hB hR hstaged hreal hdi he
  refine ⟨⟨fun ⟨e, he⟩ => hneeds e he, ?_⟩, fun e he => ?_⟩
  · rintro ⟨hon, hlong, hlast, hlimit⟩
    obtain ⟨e, he, -⟩ :=
      second_stage_arrives hB hR hstaged hreal hon hlong hlast hlimit
    exact ⟨e, he⟩
  · obtain ⟨hon, hlong, hlast, hlimit⟩ := hneeds e he
    obtain ⟨f, hf, hover⟩ :=
      second_stage_arrives hB hR hstaged hreal hon hlong hlast hlimit
    obtain rfl : e = f := Except.ok.inj (he.symm.trans hf)
    exact hover

end

-- =============================================================== a sample

/-- Memory with each piece at its address, the first that has the byte. -/
def laidOut : List (Nat × List (BitVec 8)) → Mem
  | [], _ => 0#8
  | p :: ps, b =>
      if p.1 ≤ b.toNat ∧ b.toNat < p.1 + p.2.length then
        p.2.getD (b.toNat - p.1) 0#8
      else laidOut ps b

/-- A piece of several that do not meet. -/
theorem laidOut_at : ∀ {ps : List (Nat × List (BitVec 8))},
    ps.Pairwise (fun p q => p.1 + p.2.length ≤ q.1
      ∨ q.1 + q.2.length ≤ p.1) →
    ∀ {p : Nat × List (BitVec 8)} {b : BitVec 64} {k : Nat}, p ∈ ps →
      k < p.2.length → b.toNat = p.1 + k → laidOut ps b = p.2.getD k 0#8 := by
  intro ps
  induction ps with
  | nil =>
      intro _ p b k hp
      exact absurd hp List.not_mem_nil
  | cons q ps ih =>
      intro hpair p b k hp hk hb
      obtain ⟨hq, hps⟩ := List.pairwise_cons.1 hpair
      rcases List.mem_cons.1 hp with rfl | hp
      · unfold laidOut
        rw [if_pos (by omega), hb, Nat.add_sub_cancel_left]
      · unfold laidOut
        rw [if_neg]
        · exact ih hps hp hk hb
        · rcases hq p hp with hlt | hgt
          · omega
          · omega

/-- The labels of the assembled second stage. -/
def secondLabels : SecondLabels where
  greeting_msg := 0xC057#16
  a20_not_enabled_msg := 0xC5D9#16
  press_any_key := 0xC6AB#16
  a20 := ⟨0xC583#16, 0xC5AB#16, 0xC56F#16, 0xC5C8#16, fun _ => 0#16⟩
  mode :=
    { cpuid_not_supported := 0xC5EE#16
      cpuid_supported := 0xC604#16
      long_mode_supported_msg := 0xC616#16
      long_mode_not_supported_msg := 0xC62C#16
      back := fun _ => 0#16 }
  map := ⟨0xC64B#16, 0xC567#16, 0xC56C#16,
    ⟨0xC554#16, 0xC564#16, 0#16, 0#16⟩, fun _ => 0#16⟩
  switch := ⟨0xC675#16, 0xC8DC#16, 0xC914#16, 0xC9E6#16, 0#16, 0xC9DB#16⟩
  after := fun call => if call = .a20 then 0xC01E#16 else 0xC000#16

def secondGreeting : List (BitVec 8) :=
  chars "Second Stage Boot Loader is ready, press any key to resume\r\n"

/-- The table of segments with its pointer, and the strings. -/
def secondPieces : List (Nat × List (BitVec 8)) :=
  (0xC914, gdt64 ++ [0, 0] ++ [0x19, 0] ++ [0x14, 0xC9, 0, 0])
    :: (secondBytes secondLabels secondGreeting).map
      fun x => (x.1.toNat, x.2)

theorem secondPieces_apart : secondPieces.Pairwise
    (fun p q => p.1 + p.2.length ≤ q.1 ∨ q.1 + q.2.length ≤ p.1) := by
  decide +kernel

/-- The image, with nothing where its bytes do not matter. -/
theorem laidOut_imaged : Imaged secondLabels secondGreeting
    (laidOut secondPieces) := by
  have hhigh : ∀ y ∈ secondBytes secondLabels secondGreeting,
      y.1.toNat + y.2.length ≤ 0xD000 := by decide +kernel
  refine ⟨by decide +kernel, hhigh, fun x hx k hk => ?_, ⟨by decide,
    by decide, by decide +kernel, by decide +kernel, by decide +kernel,
    by decide +kernel⟩⟩
  have hp : (x.1.toNat, x.2) ∈ secondPieces :=
    List.mem_cons_of_mem _ (List.mem_map_of_mem hx)
  have hend := hhigh x hx
  refine laidOut_at secondPieces_apart hp hk ?_
  rw [linear_toNat]
  simp only [BitVec.toNat_add, BitVec.toNat_ofNat]
  omega

/-- A BIOS with A20 on and one region of memory. -/
def secondBios : Bios Unit := fun n c =>
  if n = 0x15#8 ∧ (c.reg .ax = 0x2402#16 ∨ c.reg .ax = 0x2401#16) then
    { c with carry := false }
  else mapBios .last n c

theorem secondBios_a20 {c : Pc Unit}
    (h : c.reg .ax = 0x2402#16 ∨ c.reg .ax = 0x2401#16) :
    secondBios 0x15#8 c = { c with carry := false } :=
  if_pos ⟨rfl, h⟩

theorem secondBios_map {c : Pc Unit} (h : Asks c) :
    secondBios 0x15#8 c = mapBios .last 0x15#8 c := by
  have hax : c.reg .ax = 0xE820#16 := by
    have hlow := congrArg (BitVec.extractLsb' 0 16) h.ax
    unfold wide at hlow
    rw [BitVec.extractLsb'_append_eq_right] at hlow
    exact hlow.trans (by decide)
  refine if_neg fun hboth => ?_
  rcases hboth.2 with heq | heq
  · exact absurd (hax.symm.trans heq) (by decide)
  · exact absurd (hax.symm.trans heq) (by decide)

theorem secondBios_second : SecondBios secondBios OnScreen 0
    (fun _ => some true) .last [lowRegion] where
  teletype := fun _ _ => ⟨fun _ _ => rfl, fun _ _ => rfl, rfl, fun _ _ => rfl⟩
  id := fun _ _ => rfl
  mode := fun _ _ => ⟨fun _ _ => rfl, fun _ _ => rfl, rfl, fun _ _ => rfl⟩
  key := fun _ _ => ⟨fun _ _ => rfl, fun _ _ => rfl, rfl, fun _ _ => rfl⟩
  services := by
    intro c h
    rw [secondBios_a20 h]
    exact ⟨rfl, rfl, fun _ _ => rfl⟩
  answers := by
    refine ⟨fun q h => ?_, fun q h b hb => ?_, fun _ _ _ => rfl⟩
    · rw [secondBios_a20 (Or.inl h)]
      rfl
    · cases hb
      rw [secondBios_a20 (Or.inl h)]
      show (q.reg .ax).extractLsb' 0 8 = 0#8 ↔ _
      rw [h]
      decide
  video := fun _ => rfl
  keyboard := fun _ => rfl
  ds := by
    intro c
    unfold secondBios
    split
    · rfl
    · exact mapBios_ds .last c
  map := by
    intro w q hw hbx hasks
    obtain ⟨hanswered, hiff, -⟩ :=
      mapBios_serves (Or.inl rfl) OnScreen 0 q hw hbx hasks
    rw [secondBios_map hasks]
    exact ⟨hanswered, hiff, fun hne => absurd (hiff.2 ⟨rfl, rfl⟩) hne⟩

/-- The machine at the second stage's first instruction, with the DI of the
first and a data segment without end. -/
def secondMachine : Machine Unit where
  pc :=
    { reg := fun r => if r = .sp then 0xB000#16
        else if r = .di then 0x7F#16 else 0#16
      high := fun _ => 0#16
      seg := fun _ => 0#16
      carry := false
      eflags := 0#32
      ip := 0#16
      mem := laidOut secondPieces
      loads := []
      issued := []
      bios := () }
  control := ⟨0x60000010#32, 0#32, 0#32, 0#64, 0#32, 0#16⟩
  idtBase := 0#32
  idtLimit := 0x3FF#16
  dsLimit := 0xFFFFFFFF#32
  ports := []

theorem secondMachine_room : Room OnScreen 0 2000 (2 ^ 32) secondGreeting
    [lowRegion] where
  outside := fun _ hb => Or.inr (Nat.le_trans (by decide) hb.1)
  screen := fun _ hb => hb
  depth := by decide
  greeting := by decide +kernel
  fuel := Nat.le_refl 2000
  rounds := Nat.le_refl _
  regions := by decide

/-- All four conditions met. -/
theorem second_stage_enters_iff_sample : ∃ e,
    second_stage (cpuWith 0x80000008#32) secondBios secondLabels 2000 (2 ^ 32)
        secondMachine = .ok e
      ∧ HandedOver secondLabels [lowRegion] secondMachine e := by
  obtain ⟨hiff, hover⟩ := second_stage_enters_iff (L := secondLabels)
    (P := cpuWith 0x80000008#32) (s := secondMachine) secondBios_second
    secondMachine_room ⟨rfl, rfl, rfl, laidOut_imaged⟩ ⟨rfl, rfl⟩ (by decide)
  obtain ⟨e, he⟩ := hiff.2 ⟨rfl, by decide, rfl, by decide⟩
  exact ⟨e, he, hover e he⟩

end BootLoader.SecondStage
