/-
When `check_long_mode` comes back, and when it hangs.

# The flags on the stack

`check_cpuid_support` keeps up to three copies of EFLAGS on the stack, and
the last to be popped restores it. `Copies c d vs` is the stack between
them: the doublewords `vs` pushed since `c`, on top of what `c` held. Its
push and pop lemmas run the routine's first half (`flip_id_spec`), and EAX
ends up with the ID bit exactly when the processor can toggle it.

# The compare

`jl` after a compare with 80000001h jumps for one value only: the signed
numbers below it are 80000000h alone. A processor without extended leaves
answers with its highest basic leaf, far below 80000000h, and passes. So
the gate decides on bit 29 of a leaf that does not exist, and the theorem
says for which CPUID tables that makes a difference.
-/
import BootLoader.SecondStage.LongModeCheck
import BootLoader.FirstStage.Proofs.BiosPrint

namespace BootLoader.RealMode.Pc

open FlatMemory Segment

variable {ω : Type _} {P : Processor} {c d : Pc ω} {b : BitVec 64}
  {ws : List (BitVec 16)} {n : Nat}

-- ======================================================== doublewords

/-- The two words of a doubleword on the stack. -/
def dwords (v : BitVec 32) : List (BitVec 16) :=
  [v.extractLsb' 0 16, v.extractLsb' 16 16]

theorem flatMap_dwords_length (vs : List (BitVec 32)) :
    (vs.flatMap dwords).length = 2 * vs.length := by
  induction vs with
  | nil => rfl
  | cons v vs ih =>
      rw [List.flatMap_cons, List.length_append, ih, List.length_cons]
      show 2 + 2 * vs.length = _
      omega

theorem top32_of_held {v : BitVec 32} (h : c.Held (dwords v ++ ws)) :
    c.top32 = v := by
  obtain ⟨hlow, hhigh, -⟩ := h
  have htop : c.top32 = v.extractLsb' 16 16 ++ v.extractLsb' 0 16 :=
    congrArg₂ (· ++ ·) hhigh hlow
  rw [htop]
  exact BitVec.extractLsb'_append_extractLsb'

theorem push32_sp (c : Pc ω) (v : BitVec 32) :
    (c.push32 v).reg .sp = c.reg .sp - 4#16 := by
  show c.reg .sp - 2#16 - 2#16 = _
  apply BitVec.eq_of_toNat_eq
  simp only [BitVec.toNat_sub, BitVec.toNat_ofNat]
  omega

theorem push32_mem (c : Pc ω) (v : BitVec 32)
    (h : ¬ Under (c.seg .ss) (c.reg .sp) 4 b) :
    (c.push32 v).mem b = c.mem b := by
  have hlow : ¬ Under ((c.push (v.extractLsb' 16 16)).seg .ss)
      ((c.push (v.extractLsb' 16 16)).reg .sp) 2 b :=
    fun hu => h (Under.of_sub (j := 2) hu)
  exact (push_mem _ _ hlow).trans
    (c.push_mem _ fun hu => h (hu.mono (by omega)))

theorem pop32_wide_of_ne (c : Pc ω) {r r' : Gpr} (h : r' ≠ r)
    (hsp : r' ≠ .sp) : (c.pop32 r).wide r' = c.wide r' := by
  rw [pop32, wide_setWide_of_ne _ _ h]
  exact wide_eq (if_neg hsp) rfl

theorem cpuid_ax (P : Processor) (c : Pc ω) :
    (c.cpuid P).wide .ax = (P.leaf (c.wide .ax)).eax := by
  rw [cpuid, wide_setWide_of_ne _ _ (by decide),
    wide_setWide_of_ne _ _ (by decide), wide_setWide_of_ne _ _ (by decide),
    wide_setWide]

theorem cpuid_dx (P : Processor) (c : Pc ω) :
    (c.cpuid P).wide .dx = (P.leaf (c.wide .ax)).edx := wide_setWide _ _ _

/-- From `c` to `d` the doublewords `vs` have been pushed on what `c` held,
and nothing was written but on the `n` bytes under its SP. -/
structure Copies (n : Nat) (ws : List (BitVec 16)) (c : Pc ω)
    (vs : List (BitVec 32)) (d : Pc ω) : Prop where
  held : d.Held (vs.flatMap dwords ++ ws)
  sp : d.reg .sp = c.reg .sp - BitVec.ofNat 16 (4 * vs.length)
  seg : d.seg = c.seg
  mem : ∀ b, ¬ Under (c.seg .ss) (c.reg .sp) n b → d.mem b = c.mem b

namespace Copies

variable {vs : List (BitVec 32)} {v : BitVec 32}

theorem none (h : c.Held ws) : Copies n ws c [] c :=
  ⟨h, (BitVec.sub_zero _).symm, rfl, fun _ _ => rfl⟩

theorem push (h : Copies n ws c vs d) (hn : 4 * vs.length + 4 ≤ n)
    (hlen : 2 * ws.length + n < 65536) (v : BitVec 32) :
    Copies n ws c (v :: vs) (d.push32 v) := by
  have hsize : (vs.flatMap dwords ++ ws).length
      = 2 * vs.length + ws.length := by
    rw [List.length_append, flatMap_dwords_length]
  refine ⟨?_, ?_, h.seg, ?_⟩
  · have hhigh : (d.push (v.extractLsb' 16 16)).Held
        (v.extractLsb' 16 16 :: (vs.flatMap dwords ++ ws)) :=
      Holds.push h.held (by omega) _
    exact Holds.push hhigh (by rw [List.length_cons]; omega) _
  · rw [push32_sp, h.sp, List.length_cons]
    apply BitVec.eq_of_toNat_eq
    simp only [BitVec.toNat_sub, BitVec.toNat_ofNat]
    omega
  · intro b hb
    refine (d.push32_mem v fun hu => hb ?_).trans (h.mem b hb)
    rw [h.seg, h.sp] at hu
    exact hu.of_sub.mono (by omega)

/-- The stack when the top copy has been popped, one way or another. -/
theorem pop (h : Copies n ws c (v :: vs) d) {e : Pc ω}
    (hsp : e.reg .sp = d.reg .sp + 4#16) (hseg : e.seg = d.seg)
    (hmem : e.mem = d.mem) : Copies n ws c vs e := by
  obtain ⟨-, -, hrest⟩ := h.held
  refine ⟨?_, ?_, hseg.trans h.seg, ?_⟩
  · unfold Held
    rw [hseg, hsp, hmem]
    rw [BitVec.add_assoc] at hrest
    exact hrest
  · rw [hsp, h.sp, List.length_cons]
    apply BitVec.eq_of_toNat_eq
    simp only [BitVec.toNat_sub, BitVec.toNat_add, BitVec.toNat_ofNat]
    omega
  · rw [hmem]
    exact h.mem

theorem pop32 (h : Copies n ws c (v :: vs) d) {r : Gpr} (hr : r ≠ .sp) :
    (d.pop32 r).wide r = v ∧ Copies n ws c vs (d.pop32 r) := by
  refine ⟨?_, h.pop ?_ rfl rfl⟩
  · rw [Pc.pop32, wide_setWide]
    exact @top32_of_held _ _ (vs.flatMap dwords ++ ws) _ h.held
  · exact if_neg (Ne.symm hr)

theorem popfd (h : Copies n ws c (v :: vs) d) :
    (d.popfd P).eflags = P.loaded d.eflags v
      ∧ Copies n ws c vs (d.popfd P) := by
  refine ⟨?_, h.pop rfl rfl rfl⟩
  show P.loaded d.eflags d.top32 = _
  rw [@top32_of_held _ _ (vs.flatMap dwords ++ ws) _ h.held]

theorem setWide (h : Copies n ws c vs d) {r : Gpr} (hr : r ≠ .sp)
    (v : BitVec 32) : Copies n ws c vs (d.setWide r v) := by
  have hsp : (d.setWide r v).reg .sp = d.reg .sp := if_neg (Ne.symm hr)
  refine ⟨?_, hsp.trans h.sp, h.seg, h.mem⟩
  unfold Held
  rw [hsp]
  exact h.held

end Copies

end BootLoader.RealMode.Pc

namespace BootLoader.SecondStage

open FlatMemory Segment RealMode Pc FirstStage

variable {ω : Type _} {P : Processor} {B : Bios ω} {L : LongModeLabels}
  {own : BitVec 64 → Prop} {depth fuel n : Nat} {c d e : Pc ω}

-- ========================================================= the ID flag

/-- A bit of a word, singled out. -/
theorem and_id (x : BitVec 32) : x &&& 0x0200000#32
    = if x.getLsbD 21 then 0x0200000#32 else 0#32 :=
  BitVec.and_twoPow x 21

theorem and_lm (x : BitVec 32) : x &&& 0x20000000#32
    = if x.getLsbD 29 then 0x20000000#32 else 0#32 :=
  BitVec.and_twoPow x 29

/-- `pushfd` keeps the ID flag. -/
theorem pushed_id (x : BitVec 32) :
    (x &&& 0x00FCFFFF#32).getLsbD 21 = x.getLsbD 21 := by
  rw [BitVec.getLsbD_and]
  exact Bool.and_true _

/-- The flipped flag, loaded, stored and compared with the old one. -/
theorem flipped_id (P : Processor) (x : BitVec 32) :
    ((P.loaded x ((x &&& 0x00FCFFFF#32) ^^^ 0x0200000#32) &&& 0x00FCFFFF#32)
        ^^^ (x &&& 0x00FCFFFF#32)) &&& 0x0200000#32
      = if P.toggles then 0x0200000#32 else 0#32 := by
  have hbit : ((P.loaded x ((x &&& 0x00FCFFFF#32) ^^^ 0x0200000#32)
        &&& 0x00FCFFFF#32) ^^^ (x &&& 0x00FCFFFF#32)).getLsbD 21
      = P.toggles := by
    have hflip : (0x0200000#32).getLsbD 21 = true := by decide
    rw [BitVec.getLsbD_xor, pushed_id, pushed_id, P.loaded_id,
      BitVec.getLsbD_xor, pushed_id, hflip]
    cases P.toggles with
    | true => simp
    | false => simp
  rw [and_id, hbit]

/-- The first three copies: the top one comes back flipped. -/
theorem flip_load {w : BitVec 32} (h : Copies 12 [] c [w, w, w] d) :
    let s := d.pop32 .ax
    let t := s.setWide .ax (s.wide .ax ^^^ 0x0200000#32)
    let u := (t.push32 (t.wide .ax)).popfd P
    Copies 12 [] c [w, w] u
      ∧ u.eflags = P.loaded d.eflags (w ^^^ 0x0200000#32) := by
  intro s t u
  obtain ⟨hax, hs⟩ := h.pop32 (r := .ax) (by decide)
  have ht : Copies 12 [] c [w, w] t := hs.setWide (by decide) _
  have hwide : t.wide .ax = w ^^^ 0x0200000#32 := by
    rw [wide_setWide, hax]
  have hpush : Copies 12 [] c [t.wide .ax, w, w] (t.push32 (t.wide .ax)) :=
    ht.push (Nat.le_refl 12) (by decide) _
  obtain ⟨hflags, hu⟩ := hpush.popfd (P := P)
  refine ⟨hu, hflags.trans ?_⟩
  rw [hwide]
  rfl

/-- The last copy against the one before it. -/
theorem flip_compare {w : BitVec 32} (h : Copies 12 [] c [w, w] d) :
    let s := (d.pushfd.pop32 .ax).pop32 .cx
    let t := s.setWide .ax (s.wide .ax ^^^ s.wide .cx)
    let u := t.setWide .ax (t.wide .ax &&& 0x0200000#32)
    Copies 12 [] c [w] u
      ∧ u.wide .ax
        = ((d.eflags &&& 0x00FCFFFF#32) ^^^ w) &&& 0x0200000#32 := by
  intro s t u
  have hpush : Copies 12 [] c [d.eflags &&& 0x00FCFFFF#32, w, w] d.pushfd :=
    h.push (Nat.le_refl 12) (by decide) _
  obtain ⟨hax, hpop⟩ := hpush.pop32 (r := .ax) (by decide)
  obtain ⟨hcx, hs⟩ := hpop.pop32 (r := .cx) (by decide)
  have hsax : s.wide .ax = d.eflags &&& 0x00FCFFFF#32 :=
    (pop32_wide_of_ne _ (by decide) (by decide)).trans hax
  refine ⟨(hs.setWide (by decide) _).setWide (by decide) _, ?_⟩
  rw [wide_setWide, wide_setWide, hsax, hcx]

/-- One copy of EFLAGS is left on the stack, and EAX says whether the flag
could be toggled. -/
theorem flip_id_spec (P : Processor) (c : Pc ω) :
    Copies 12 [] c [c.eflags &&& 0x00FCFFFF#32] (flip_id P c)
      ∧ (flip_id P c).wide .ax
        = if P.toggles then 0x0200000#32 else 0#32 := by
  have h0 : Copies 12 [] c [] c := Copies.none trivial
  have h1 := h0.push (Nat.le_add_left 4 8) (by decide)
    (c.eflags &&& 0x00FCFFFF#32)
  have h2 := h1.push (Nat.le_add_left 8 4) (by decide)
    (c.eflags &&& 0x00FCFFFF#32)
  have h3 := h2.push (Nat.le_refl 12) (by decide)
    (c.eflags &&& 0x00FCFFFF#32)
  obtain ⟨hload, hflags⟩ := flip_load (P := P) h3
  obtain ⟨hcopy, hax⟩ := flip_compare hload
  refine ⟨hcopy, hax.trans ?_⟩
  rw [hflags]
  exact flipped_id P c.eflags

-- ========================================================== the messages

def noCpuidText : List (BitVec 8) := chars "CPUID not supported\r\n"

def hasCpuidText : List (BitVec 8) := chars "CPUID supported\r\n"

def hasLongModeText : List (BitVec 8) := chars "Long mode supported\r\n"

def noLongModeText : List (BitVec 8) :=
  chars "Long mode not supported !!!!\r\n"

/-- The four messages, with their labels. -/
def longModeMessages (L : LongModeLabels) :
    List (BitVec 16 × List (BitVec 8)) :=
  [(L.cpuid_not_supported, noCpuidText), (L.cpuid_supported, hasCpuidText),
    (L.long_mode_supported_msg, hasLongModeText),
    (L.long_mode_not_supported_msg, noLongModeText)]

/-- The messages are in place, and the `n` bytes of stack below SP are not
the BIOS's own. -/
structure Worded (own : BitVec 64 → Prop) (n : Nat) (L : LongModeLabels)
    (c : Pc ω) : Prop where
  there : ∀ m ∈ longModeMessages L, Lasting own n c m.1 (m.2 ++ [0#8])
  off : Off own (c.seg .ss) (c.reg .sp) n

theorem Worded.mono {k : Nat} (h : Worded own n L c) (hk : k ≤ n) :
    Worded own k L c :=
  ⟨fun m hm => (h.there m hm).mono hk, h.off.mono hk⟩

theorem Worded.next (h : Worded own n L c) (hmem : c.Spares own n d)
    (hseg : d.seg = c.seg) (hsp : d.reg .sp = c.reg .sp) :
    Worded own n L d := by
  refine ⟨fun m hm => ?_, ?_⟩
  · exact (h.there m hm).next hmem (congrFun hseg .ds) (congrFun hseg .ss) hsp
  · rw [hseg, hsp]
    exact h.off

/-- Seen from `j` bytes further down the stack. -/
theorem Worded.below {j : Nat} (h : Worded own (n + j) L c)
    (hseg : d.seg = c.seg)
    (hsp : d.reg .sp = c.reg .sp - BitVec.ofNat 16 j)
    (hmem : ∀ b, ¬ Under (c.seg .ss) (c.reg .sp) j b → d.mem b = c.mem b) :
    Worded own n L d := by
  refine ⟨fun m hm => ?_, ?_⟩
  · exact (h.there m hm).below (congrFun hseg .ds) (congrFun hseg .ss) hsp hmem
  · rw [hseg, hsp]
    exact h.off.below

theorem messages_fit {m : BitVec 16 × List (BitVec 8)}
    (hm : m ∈ longModeMessages L) : 0#8 ∉ m.2 ∧ m.2.length ≤ 30 := by
  have hall : ∀ x ∈ [noCpuidText, hasCpuidText, hasLongModeText,
      noLongModeText], 0#8 ∉ x ∧ x.length ≤ 30 := by decide +kernel
  have htext : m.2 ∈ (longModeMessages L).map Prod.snd :=
    List.mem_map_of_mem hm
  exact hall _ htext

/-- `mov si, msg` and `call bios_print`, for one of the messages. -/
theorem call_message (hB : Teletype B own depth)
    (hc : Worded own (depth + 18) L c) {m : BitVec 16 × List (BitVec 8)}
    (hm : m ∈ longModeMessages L) (hfuel : 30 < fuel)
    (hdepth : depth + 18 ≤ 65536) (back : BitVec 16) :
    ∃ d, (c.set .si m.1).call back (bios_print B fuel) = .ok d
      ∧ d.reg .sp = c.reg .sp ∧ d.seg = c.seg
      ∧ c.Spares own (depth + 18) d := by
  obtain ⟨hz, hlen⟩ := messages_fit hm
  have hstr : Lasting own (depth + 18) (c.set .si m.1) m.1 (m.2 ++ [0#8]) :=
    (hc.there m hm).next (fun _ _ => rfl) rfl rfl rfl
  obtain ⟨d, hd, hsteady, hprint⟩ := call_bios_print (c := c.set .si m.1) hB
    back (Nat.lt_of_le_of_lt hlen hfuel) hz hstr
    (hc.off.mono (Nat.le_add_left 18 depth)) hdepth
  refine ⟨d, hd, congrFun hsteady.reg .sp, hprint.seg, ?_⟩
  exact fun b hb => hsteady.mem b (hb.congr rfl rfl)

/-- A message, and then `jmp hang`. -/
theorem message_hangs (hB : Teletype B own depth)
    (hc : Worded own (depth + 18) L c) {m : BitVec 16 × List (BitVec 8)}
    (hm : m ∈ longModeMessages L) (hfuel : 30 < fuel)
    (hdepth : depth + 18 ≤ 65536) (back : BitVec 16) :
    (do
      let _ ← (c.set .si m.1).call back (bios_print B fuel)
      .error .hang : Outcome (Pc ω)) = .error .hang := by
  obtain ⟨d, hd, -⟩ := call_message hB hc hm hfuel hdepth back
  rw [hd]
  rfl

/-- A BIOS whose teletype service keeps the ID flag, which lies in the half
of EFLAGS an interrupt does not save. -/
def KeepsId (B : Bios ω) : Prop :=
  ∀ c : Pc ω, c.high8 .ax = 0x0E#8 →
    (B 0x10#8 c).eflags.getLsbD 21 = c.eflags.getLsbD 21

theorem print_loop_id (hB : KeepsId B) : ∀ (fuel : Nat) (c d : Pc ω),
    print_loop B fuel c = .ok d →
    d.eflags.getLsbD 21 = c.eflags.getLsbD 21 := by
  intro fuel
  induction fuel with
  | zero =>
      intro c d h
      cases h
  | succ fuel ih =>
      intro c d h
      simp only [print_loop] at h
      split at h
      · cases h
        rfl
      · refine (ih _ d h).trans (hB _ ?_)
        simp only [high8, setHigh8, set_reg, if_true]
        exact BitVec.extractLsb'_append_eq_left

theorem call_bios_print_id (hB : KeepsId B) {back : BitVec 16}
    (h : c.call back (bios_print B fuel) = .ok d) :
    d.eflags.getLsbD 21 = c.eflags.getLsbD 21 := by
  obtain ⟨hprint, -⟩ := call_inv h
  obtain ⟨e, hloop, hd⟩ := bind_inv hprint
  cases hd
  have hid := print_loop_id hB fuel _ e hloop
  exact hid

-- ========================================================= the routines

/-- A check that was passed: the caller's registers, segments and ID flag
are as they were. -/
structure Passed (own : BitVec 64 → Prop) (n : Nat) (c d : Pc ω) :
    Prop where
  steady : c.Steady own n d
  seg : d.seg = c.seg
  id : d.eflags.getLsbD 21 = c.eflags.getLsbD 21

/-- The stack and the messages at the start of a called check. -/
theorem Worded.enter (hc : Worded own (n + 18) L c) (back : BitVec 16) :
    (c.push back).pusha.reg .sp = c.reg .sp - 18#16
      ∧ Worded own n L (c.push back).pusha := by
  have hsp : (c.push back).pusha.reg .sp = c.reg .sp - 18#16 := by
    rw [pusha_sp, push_sp]
    apply BitVec.eq_of_toNat_eq
    simp only [BitVec.toNat_sub, BitVec.toNat_ofNat]
    omega
  refine ⟨hsp, Worded.below (j := 18) hc rfl hsp fun b hb => ?_⟩
  rw [pusha_mem, push_mem]
  · exact fun hu => hb (hu.mono (by omega))
  · exact fun hu => hb (Under.of_sub (j := 2) hu)

/-- The end of a called check that left its 18 bytes of stack alone. -/
theorem call_leaves {f : Pc ω → Outcome (Pc ω)} {back : BitVec 16}
    (hf : f (c.push back) = .ok d.popa.ret) (hseg : d.seg = c.seg)
    (hsp : d.reg .sp = (c.push back).pusha.reg .sp)
    (hmem : (c.push back).pusha.Spares own n d)
    (hoff : Off own (c.seg .ss) (c.reg .sp) 18) (hn : n + 18 ≤ 65536)
    (hid : d.eflags.getLsbD 21 = c.eflags.getLsbD 21) :
    c.call back f = .ok d.popa.ret ∧ Passed own (n + 18) c d.popa.ret := by
  have hret := leave_returns (c := c.push back) (congrFun hseg .ss)
    (hsp.trans (pusha_sp _)) hmem
    (by rw [push_sp, BitVec.sub_add_cancel]; exact hoff) hn
  obtain ⟨hcall, hsteady⟩ := call_steady hf hret
  exact ⟨hcall, hsteady, hseg, hid⟩

theorem call_check_cpuid_support (hB : Teletype B own depth)
    (hc : Worded own (depth + 40) L c) (hfuel : 30 < fuel)
    (hdepth : depth + 40 ≤ 65536) (back : BitVec 16) :
    (P.toggles = true → ∃ d,
        c.call back (check_cpuid_support P B L fuel) = .ok d
          ∧ Passed own (depth + 40) c d)
      ∧ (P.toggles = false →
        c.call back (check_cpuid_support P B L fuel) = .error .hang) := by
  obtain ⟨hpsp, hpushed⟩ := Worded.enter (n := depth + 22) hc back
  obtain ⟨hcopy, hax⟩ := flip_id_spec P (c.push back).pusha
  obtain ⟨u, hu⟩ : ∃ u, flip_id P (c.push back).pusha = u := ⟨_, rfl⟩
  rw [hu] at hcopy hax
  have umem : (c.push back).pusha.Spares own (depth + 22) u :=
    fun b hb => hcopy.mem b fun hunder => hb.2 (hunder.mono (by omega))
  have hworded : Worded own (depth + 18) L u := by
    have hmid : Worded own (depth + 22) L
        { (c.push back).pusha with mem := u.mem } := hpushed.next umem rfl rfl
    exact Worded.below (j := 4) hmid hcopy.seg hcopy.sp fun _ _ => rfl
  constructor
  · intro ht
    rw [ht, if_pos rfl] at hax
    obtain ⟨v, hv, vsp, vseg, vmem⟩ := call_message hB hworded
      (m := (L.cpuid_supported, hasCpuidText))
      (List.mem_cons_of_mem _ List.mem_cons_self) hfuel (by omega)
      (L.back .hasCpuid)
    -- the copy is still on the stack
    have hback : u.reg .sp + 4#16 = (c.push back).pusha.reg .sp := by
      rw [hcopy.sp]
      exact BitVec.sub_add_cancel _ _
    have hheld : v.Held (dwords ((c.push back).pusha.eflags &&& 0x00FCFFFF#32)
        ++ []) := by
      unfold Held
      rw [vseg, vsp]
      refine Holds.congr hcopy.held fun k hk => vmem _ ?_
      refine fixed_above (j := 4) ?_ hk (by omega)
      rw [hcopy.seg, hback]
      exact hpushed.off.mono (by omega)
    have hrun : check_cpuid_support P B L fuel (c.push back)
        = .ok (v.popfd P).popa.ret := by
      simp only [check_cpuid_support, hu, hax]
      rw [if_neg (by decide)]
      exact congrArg (· >>= _) hv
    have hmem : (c.push back).pusha.Spares own (depth + 22) (v.popfd P) := by
      intro b hb
      have hfix : Fixed own (depth + 18) u b :=
        hb.below (j := 4) (congrFun hcopy.seg .ss) hcopy.sp
      exact (vmem b hfix).trans (umem b hb)
    have hseg : (v.popfd P).seg = c.seg := vseg.trans hcopy.seg
    have hid : (v.popfd P).eflags.getLsbD 21 = c.eflags.getLsbD 21 := by
      show (P.loaded v.eflags v.top32).getLsbD 21 = _
      rw [P.loaded_id, ht, if_pos rfl, top32_of_held hheld, pushed_id]
      rfl
    have hsp : (v.popfd P).reg .sp = (c.push back).pusha.reg .sp := by
      rw [← hback, ← vsp]
      rfl
    exact ⟨_, call_leaves hrun hseg hsp hmem (hc.off.mono (by omega))
      (by omega) hid⟩
  · intro ht
    rw [ht, if_neg Bool.false_ne_true] at hax
    have hrun : check_cpuid_support P B L fuel (c.push back)
        = .error .hang := by
      simp only [check_cpuid_support, hu, hax, if_true]
      exact message_hangs hB hworded
        (m := (L.cpuid_not_supported, noCpuidText)) List.mem_cons_self hfuel
        (by omega) _
    unfold call
    rw [hrun]
    rfl

/-- What the code asks of the two leaves. -/
def LeavesPass (P : Processor) : Prop :=
  (P.leaf 0x80000000#32).eax.slt 0x80000001#32 = false
    ∧ (P.leaf 0x80000001#32).edx.getLsbD 29 = true

instance : Decidable (LeavesPass P) := inferInstanceAs (Decidable (_ ∧ _))

theorem call_check_long_mode_with_cpuid (hB : Teletype B own depth)
    (hid : KeepsId B) (hc : Worded own (depth + 36) L c) (hfuel : 30 < fuel)
    (hdepth : depth + 36 ≤ 65536) (back : BitVec 16) :
    (LeavesPass P → ∃ d,
        c.call back (check_long_mode_with_cpuid P B L fuel) = .ok d
          ∧ Passed own (depth + 36) c d)
      ∧ (¬ LeavesPass P →
        c.call back (check_long_mode_with_cpuid P B L fuel)
          = .error .hang) := by
  obtain ⟨hpsp, hpushed⟩ := Worded.enter (n := depth + 18) hc back
  -- the machine after the first leaf, and after the second
  obtain ⟨u, hu⟩ : ∃ u, ((c.push back).pusha.setWide .ax
      0x80000000#32).cpuid P = u := ⟨_, rfl⟩
  obtain ⟨v, hv⟩ : ∃ v, (u.setWide .ax 0x80000001#32).cpuid P = v := ⟨_, rfl⟩
  obtain ⟨w, hw⟩ : ∃ w, v.setWide .dx (v.wide .dx &&& 0x20000000#32) = w :=
    ⟨_, rfl⟩
  have huax : u.wide .ax = (P.leaf 0x80000000#32).eax := by
    rw [← hu, cpuid_ax, wide_setWide]
  have hwdx : w.wide .dx = if (P.leaf 0x80000001#32).edx.getLsbD 29
      then 0x20000000#32 else 0#32 := by
    rw [← hw, wide_setWide, ← hv, cpuid_dx, wide_setWide, and_lm]
  have hrun : check_long_mode_with_cpuid P B L fuel (c.push back)
      = if (u.wide .ax).slt 0x80000001#32 then
          long_mode_not_supported B L fuel u
        else if w.wide .dx = 0#32 then long_mode_not_supported B L fuel w
        else (w.set .si L.long_mode_supported_msg).call (L.back .hasLongMode)
          (bios_print B fuel) >>= fun d => .ok d.popa.ret := by
    subst hw hv hu
    rfl
  rw [huax, hwdx] at hrun
  have humem : u.mem = (c.push back).pusha.mem := by rw [← hu]; rfl
  have huseg : u.seg = c.seg := by rw [← hu]; rfl
  have husp : u.reg .sp = (c.push back).pusha.reg .sp := by rw [← hu]; rfl
  have hwmem : w.mem = (c.push back).pusha.mem := by
    rw [← humem, ← hw, ← hv]
    rfl
  have hwseg : w.seg = c.seg := by rw [← huseg, ← hw, ← hv]; rfl
  have hwsp : w.reg .sp = (c.push back).pusha.reg .sp := by
    rw [← husp, ← hw, ← hv]
    rfl
  have hwid : w.eflags = c.eflags := by rw [← hw, ← hv, ← hu]; rfl
  have hworded : Worded own (depth + 18) L w :=
    hpushed.next (fun _ _ => congrFun hwmem _) hwseg hwsp
  have hfails : ∀ x : Pc ω, Worded own (depth + 18) L x →
      long_mode_not_supported B L fuel x = .error .hang := fun x hx =>
    message_hangs hB hx (m := (L.long_mode_not_supported_msg, noLongModeText))
      (by simp only [longModeMessages, List.mem_cons, true_or, or_true])
      hfuel (by omega) _
  constructor
  · rintro ⟨hslt, hbit⟩
    rw [hslt, hbit, if_neg Bool.false_ne_true, if_pos rfl,
      if_neg (by decide)] at hrun
    obtain ⟨d, hd, dsp, dseg, dmem⟩ := call_message hB hworded
      (m := (L.long_mode_supported_msg, hasLongModeText))
      (by simp only [longModeMessages, List.mem_cons, true_or, or_true])
      hfuel (by omega) (L.back .hasLongMode)
    have hok : check_long_mode_with_cpuid P B L fuel (c.push back)
        = .ok d.popa.ret := hrun.trans (congrArg (· >>= _) hd)
    have hmem : (c.push back).pusha.Spares own (depth + 18) d := fun b hb =>
      (dmem b (hb.congr (congrFun hwseg .ss) hwsp)).trans (congrFun hwmem b)
    exact ⟨_, call_leaves hok (dseg.trans hwseg) (dsp.trans hwsp) hmem
      (hc.off.mono (by omega)) (by omega)
      ((call_bios_print_id hid hd).trans
        (congrArg (fun x => BitVec.getLsbD x 21) hwid))⟩
  · intro hfail
    have hhang : check_long_mode_with_cpuid P B L fuel (c.push back)
        = .error .hang := by
      rw [hrun]
      cases hslt : (P.leaf 0x80000000#32).eax.slt 0x80000001#32 with
      | true =>
          rw [if_pos rfl]
          exact hfails u (hpushed.next (fun _ _ => congrFun humem _) huseg husp)
      | false =>
          rw [if_neg Bool.false_ne_true]
          cases hbit : (P.leaf 0x80000001#32).edx.getLsbD 29 with
          | true => exact absurd ⟨hslt, hbit⟩ hfail
          | false =>
              rw [if_neg Bool.false_ne_true, if_pos rfl]
              exact hfails w hworded
    unfold call
    rw [hhang]
    rfl

/-- `check_long_mode`, called: it comes back exactly when both checks pass,
and hangs otherwise. -/
theorem call_check_long_mode (hB : Teletype B own depth) (hid : KeepsId B)
    (hc : Worded own (depth + 58) L c) (hfuel : 30 < fuel)
    (hdepth : depth + 58 ≤ 65536) (back : BitVec 16) :
    (P.toggles = true ∧ LeavesPass P → ∃ d,
        c.call back (check_long_mode P B L fuel) = .ok d
          ∧ Passed own (depth + 58) c d)
      ∧ (¬ (P.toggles = true ∧ LeavesPass P) →
        c.call back (check_long_mode P B L fuel) = .error .hang) := by
  obtain ⟨hpsp, hpushed⟩ := Worded.enter (n := depth + 40) hc back
  obtain ⟨hsupport, hno⟩ := call_check_cpuid_support (P := P) hB hpushed hfuel
    (by omega) (L.back .cpuidSupport)
  have hfirst : ∀ r, (c.push back).pusha.call (L.back .cpuidSupport)
        (check_cpuid_support P B L fuel) = r →
      check_long_mode P B L fuel (c.push back) = (r >>= fun d => do
        let d ← d.call (L.back .withCpuid)
          (check_long_mode_with_cpuid P B L fuel)
        .ok d.popa.ret) := by
    rintro r rfl
    rfl
  cases ht : P.toggles with
  | false =>
      refine ⟨fun h => absurd h.1 Bool.false_ne_true, fun _ => ?_⟩
      unfold call
      rw [hfirst _ (hno ht)]
      rfl
  | true =>
      obtain ⟨u, hu, hpass⟩ := hsupport ht
      have hworded : Worded own (depth + 36) L u :=
        (hpushed.next hpass.steady.mem hpass.seg
          (congrFun hpass.steady.reg .sp)).mono (by omega)
      obtain ⟨hleaves, hnone⟩ := call_check_long_mode_with_cpuid (P := P) hB
        hid hworded hfuel (by omega) (L.back .withCpuid)
      constructor
      · rintro ⟨-, hleaf⟩
        obtain ⟨v, hv, hpass'⟩ := hleaves hleaf
        have hrun : check_long_mode P B L fuel (c.push back)
            = .ok v.popa.ret := by
          rw [hfirst _ hu]
          show (u.call _ _ >>= fun d => Except.ok d.popa.ret) = _
          rw [hv]
          rfl
        have hsteady := hpass.steady.trans (hpass'.steady.mono (by omega))
        exact ⟨_, call_leaves hrun (hpass'.seg.trans hpass.seg)
          (congrFun hsteady.reg .sp) hsteady.mem (hc.off.mono (by omega))
          (by omega) (hpass'.id.trans hpass.id)⟩
      · intro hfail
        have hhang : check_long_mode P B L fuel (c.push back)
            = .error .hang := by
          rw [hfirst _ hu]
          show (u.call _ _ >>= fun d => Except.ok d.popa.ret) = _
          rw [hnone fun h => hfail ⟨rfl, h⟩]
          rfl
        unfold call
        rw [hhang]
        rfl

-- =============================================================== the gate

/-- A processor with long mode: CPUID is there, it has the extended leaf,
and bit 29 of EDX says so. -/
def HasLongMode (P : Processor) : Prop :=
  P.toggles = true
    ∧ 0x80000001 ≤ (P.leaf 0x80000000#32).eax.toNat
    ∧ (P.leaf 0x80000001#32).edx.getLsbD 29 = true

instance : Decidable (HasLongMode P) := inferInstanceAs (Decidable (_ ∧ _ ∧ _))

/-- The gate: `check_long_mode`, called from `c`, comes back with SP, the
other 16-bit registers and the ID flag as they were, if the processor has
long mode, and ends in the hang loop if not. -/
structure Gates (P : Processor) (B : Bios ω) (L : LongModeLabels)
    (fuel : Nat) (back : BitVec 16) (c : Pc ω) : Prop where
  opens : HasLongMode P → ∃ d,
    c.call back (check_long_mode P B L fuel) = .ok d ∧ d.reg = c.reg
      ∧ d.eflags.getLsbD 21 = c.eflags.getLsbD 21
  shuts : ¬ HasLongMode P →
    c.call back (check_long_mode P B L fuel) = .error .hang

/-- As a signed number only 80000000h is below 80000001h. -/
theorem slt_extended (x : BitVec 32) :
    x.slt 0x80000001#32 = false ↔ x.toNat ≠ 0x80000000 := by
  have hx := x.isLt
  rw [BitVec.slt_eq_decide, decide_eq_false_iff_not]
  have hbound : (0x80000001#32).toInt = -2147483647 := by decide
  rw [hbound, BitVec.toInt_eq_toNat_cond]
  split
  · omega
  · omega

theorem check_long_mode_gates_iff (hB : Teletype B own depth)
    (hid : KeepsId B) (hc : Worded own (depth + 58) L c) (hfuel : 30 < fuel)
    (hdepth : depth + 58 ≤ 65536) (back : BitVec 16) :
    Gates P B L fuel back c ↔ ¬ (P.toggles = true
      ∧ (P.leaf 0x80000000#32).eax.toNat < 0x80000000
      ∧ (P.leaf 0x80000001#32).edx.getLsbD 29 = true) := by
  obtain ⟨hopen, hshut⟩ := call_check_long_mode (P := P) hB hid hc hfuel hdepth
    back
  constructor
  · rintro hgate ⟨ht, hlow, hbit⟩
    have hno : ¬ HasLongMode P := fun h => by
      have hhigh := h.2.1
      omega
    have hpass : LeavesPass P :=
      ⟨(slt_extended _).2 (by omega), hbit⟩
    obtain ⟨d, hd, -⟩ := hopen ⟨ht, hpass⟩
    rw [hgate.shuts hno] at hd
    cases hd
  · intro hcond
    refine ⟨?_, ?_⟩
    · rintro ⟨ht, hhigh, hbit⟩
      have hpass : LeavesPass P := ⟨(slt_extended _).2 (by omega), hbit⟩
      obtain ⟨d, hd, hp⟩ := hopen ⟨ht, hpass⟩
      exact ⟨d, hd, hp.steady.reg, hp.id⟩
    · intro hno
      refine hshut fun h => ?_
      have hne := (slt_extended _).1 h.2.1
      by_cases hlow : (P.leaf 0x80000000#32).eax.toNat < 0x80000000
      · exact hcond ⟨h.1, hlow, h.2.2⟩
      · exact hno ⟨h.1, by omega, h.2.2⟩

-- =============================================================== a sample

/-- A processor with CPUID, whose leaf 80000000h gives `last` and whose
other leaves have bit 29 of EDX set. -/
def cpuWith (last : BitVec 32) : Processor where
  toggles := true
  loaded := fun _ v => v
  loaded_id := fun _ _ => rfl
  leaf := fun i => if i = 0x80000000#32 then ⟨last, 0#32, 0#32, 0#32⟩
    else ⟨0#32, 0#32, 0#32, 0x20000000#32⟩

def gateLabels : LongModeLabels :=
  ⟨0xC000#16, 0xC016#16, 0xC028#16, 0xC03E#16, fun _ => 0xC100#16⟩

/-- The machine in the second stage, with the messages from C000h on. -/
def gatePc : Pc Unit where
  reg := fun r => if r = .sp then 0xB000#16 else 0#16
  high := fun _ => 0#16
  seg := fun _ => 0#16
  carry := false
  eflags := 0#32
  ip := 0#16
  mem := fun b => if b.toNat < 0xC000 then 0#8 else
    ((longModeMessages gateLabels).flatMap fun m => m.2 ++ [0#8]).getD
      (b.toNat - 0xC000) 0#8
  loads := []
  issued := []
  bios := ()

/-- A BIOS whose services do nothing. -/
def stillBios : Bios Unit := fun _ c => c

theorem stillBios_teletype : Teletype stillBios (fun _ => False) 0 :=
  fun _ _ => ⟨fun _ _ => rfl, fun _ _ => rfl, rfl, fun _ _ => rfl⟩

theorem stillBios_id : KeepsId stillBios := fun _ _ => rfl

theorem gatePc_worded : Worded (fun _ => False) 58 gateLabels gatePc := by
  have hbytes : ∀ m ∈ longModeMessages gateLabels,
      ∀ k < (m.2 ++ [0#8]).length,
        gatePc.mem (linear 0#16 (m.1 + BitVec.ofNat 16 k))
            = (m.2 ++ [0#8]).getD k 0#8
          ∧ 0xB000 ≤ (linear 0#16 (m.1 + BitVec.ofNat 16 k)).toNat := by
    decide +kernel
  refine ⟨fun m hm => ⟨fun k hk => (hbytes m hm k hk).1, fun k hk => ?_⟩,
    fun _ _ h => h⟩
  refine ⟨fun h => h, fun hu => ?_⟩
  have hlow := ((under_iff (p := 0xB000#16) (by decide)).1 hu).2
  exact Nat.lt_irrefl _ (Nat.lt_of_lt_of_le hlow (hbytes m hm k hk).2)

/-- A processor with extended leaves. -/
theorem check_long_mode_gates_iff_sample : Gates (cpuWith 0x80000008#32)
    stillBios gateLabels 31 0xC064#16 gatePc :=
  (check_long_mode_gates_iff stillBios_teletype stillBios_id gatePc_worded
    (by decide) (by decide) 0xC064#16).2 (by decide)

/-- A processor without: it answers with its highest basic leaf, 0Dh, and
is let through. -/
theorem check_long_mode_lets_through : ¬ Gates (cpuWith 0xD#32) stillBios
    gateLabels 31 0xC064#16 gatePc := by
  intro hgate
  obtain ⟨hopen, -⟩ := call_check_long_mode (P := cpuWith 0xD#32)
    stillBios_teletype stillBios_id gatePc_worded
    (show 30 < 31 by decide) (by decide) 0xC064#16
  obtain ⟨d, hd, -⟩ := hopen (by decide)
  have hno : ¬ HasLongMode (cpuWith 0xD#32) := by decide
  rw [hgate.shuts hno] at hd
  cases hd

end BootLoader.SecondStage
