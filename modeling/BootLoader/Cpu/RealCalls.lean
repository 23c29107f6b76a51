/-
Calls, register saves and frames in real mode.

# Frames

Code that calls the BIOS cannot promise to leave all of memory alone: the
BIOS keeps data of its own (`own`: its data area, the video memory) and
uses the stack below SP. `Spares own n c d` is what is left: every byte
that is neither the BIOS's own nor among the `n` bytes below the stack
pointer is the same in `d` as in `c`.

# Calls

`Returns` is what a routine owes at its `ret`: the return address taken,
SP one word up, and the 16-bit registers as they were. `Steady` is the
same seen from the caller (`call_steady`). A routine that opens with
`pusha` and closes with `popa` and `ret` owes nothing more than to leave
its 18 bytes of stack alone in between (`leave_returns`).
-/
import BootLoader.Cpu.RealMode

namespace BootLoader.RealMode

open FlatMemory Segment

namespace Pc

variable {ω : Type _} {c d e : Pc ω} {own : BitVec 64 → Prop}
  {b : BitVec 64} {n k : Nat}

-- =============================================================== pushing

section
variable (c : Pc ω) (v : BitVec 16)

@[simp] theorem push_sp : (c.push v).reg .sp = c.reg .sp - 2#16 := rfl
@[simp] theorem push_high : (c.push v).high = c.high := rfl
@[simp] theorem push_seg : (c.push v).seg = c.seg := rfl
@[simp] theorem push_carry : (c.push v).carry = c.carry := rfl
@[simp] theorem push_eflags : (c.push v).eflags = c.eflags := rfl
@[simp] theorem push_ip : (c.push v).ip = c.ip := rfl
@[simp] theorem push_loads : (c.push v).loads = c.loads := rfl
@[simp] theorem push_issued : (c.push v).issued = c.issued := rfl
@[simp] theorem push_bios : (c.push v).bios = c.bios := rfl

theorem push_reg {r : Gpr} (h : r ≠ .sp) : (c.push v).reg r = c.reg r :=
  if_neg h

theorem push_mem (h : ¬ Under (c.seg .ss) (c.reg .sp) 2 b) :
    (c.push v).mem b = c.mem b := store_push c.mem v h

/-- The pushed word is on top. -/
theorem push_top :
    (c.push v).word .ss ((c.push v).reg .sp) = v :=
  load_store_self (n := 2) c.mem _ _ v (by omega)

end

/-- The words from SS:SP upwards. -/
def Held (c : Pc ω) (ws : List (BitVec 16)) : Prop :=
  Holds c.mem (c.seg .ss) (c.reg .sp) ws

/-- Words pushed in turn. -/
theorem foldl_push_spec (vs : List (BitVec 16)) : ∀ (c : Pc ω)
    (ws : List (BitVec 16)), Held c ws →
    2 * (vs.length + ws.length) < 65536 →
    (vs.foldl push c).reg .sp = c.reg .sp - BitVec.ofNat 16 (2 * vs.length)
      ∧ (∀ r, r ≠ .sp → (vs.foldl push c).reg r = c.reg r)
      ∧ (vs.foldl push c).seg = c.seg
      ∧ Held (vs.foldl push c) (vs.reverse ++ ws)
      ∧ (∀ b, ¬ Under (c.seg .ss) (c.reg .sp) (2 * vs.length) b →
          (vs.foldl push c).mem b = c.mem b) := by
  induction vs with
  | nil =>
      intro c ws h _
      exact ⟨(BitVec.sub_zero _).symm, fun _ _ => rfl, rfl, h, fun _ _ => rfl⟩
  | cons v vs ih =>
      intro c ws h hlen
      rw [List.length_cons] at hlen
      have hpush : Held (c.push v) (v :: ws) := h.push (by omega) v
      obtain ⟨h1, h2, h3, h4, h5⟩ := ih (c.push v) (v :: ws) hpush
        (by rw [List.length_cons]; omega)
      rw [List.foldl_cons, List.length_cons]
      refine ⟨?_, ?_, h3, ?_, ?_⟩
      · rw [h1, push_sp]
        apply BitVec.eq_of_toNat_eq
        simp only [BitVec.toNat_sub, BitVec.toNat_ofNat]
        omega
      · exact fun r hr => (h2 r hr).trans (c.push_reg v hr)
      · rw [List.reverse_cons, List.append_assoc]
        exact h4
      · intro b hb
        rw [h5 b fun hu => hb ?_]
        · exact c.push_mem v fun hu => hb (hu.mono (by omega))
        · exact Under.of_sub (j := 2) hu

-- ================================================ saving and restoring

/-- What `pusha` leaves on the stack, from the lowest word up. -/
def savedWords (c : Pc ω) : List (BitVec 16) :=
  [c.reg .di, c.reg .si, c.reg .bp, c.reg .sp, c.reg .bx, c.reg .dx,
    c.reg .cx, c.reg .ax]

section
variable (c : Pc ω)

@[simp] theorem pusha_high : c.pusha.high = c.high := rfl
@[simp] theorem pusha_eflags : c.pusha.eflags = c.eflags := rfl
@[simp] theorem pusha_seg : c.pusha.seg = c.seg := rfl
@[simp] theorem pusha_ip : c.pusha.ip = c.ip := rfl
@[simp] theorem pusha_loads : c.pusha.loads = c.loads := rfl
@[simp] theorem pusha_issued : c.pusha.issued = c.issued := rfl
@[simp] theorem pusha_bios : c.pusha.bios = c.bios := rfl

@[simp] theorem popa_high : c.popa.high = c.high := rfl
@[simp] theorem popa_eflags : c.popa.eflags = c.eflags := rfl
@[simp] theorem popa_seg : c.popa.seg = c.seg := rfl
@[simp] theorem popa_mem : c.popa.mem = c.mem := rfl
@[simp] theorem popa_loads : c.popa.loads = c.loads := rfl
@[simp] theorem popa_issued : c.popa.issued = c.issued := rfl
@[simp] theorem popa_bios : c.popa.bios = c.bios := rfl

@[simp] theorem ret_high : c.ret.high = c.high := rfl
@[simp] theorem ret_eflags : c.ret.eflags = c.eflags := rfl
@[simp] theorem ret_seg : c.ret.seg = c.seg := rfl
@[simp] theorem ret_mem : c.ret.mem = c.mem := rfl
@[simp] theorem ret_loads : c.ret.loads = c.loads := rfl
@[simp] theorem ret_issued : c.ret.issued = c.issued := rfl
@[simp] theorem ret_bios : c.ret.bios = c.bios := rfl

theorem pusha_sp : c.pusha.reg .sp = c.reg .sp - 16#16 :=
  (foldl_push_spec _ c [] trivial (by simp)).1

theorem pusha_reg {r : Gpr} (h : r ≠ .sp) : c.pusha.reg r = c.reg r :=
  (foldl_push_spec _ c [] trivial (by simp)).2.1 r h

theorem pusha_mem (h : ¬ Under (c.seg .ss) (c.reg .sp) 16 b) :
    c.pusha.mem b = c.mem b :=
  (foldl_push_spec _ c [] trivial (by simp)).2.2.2.2 b h

/-- The saved registers lie on top of what was on the stack. -/
theorem pusha_held {ws : List (BitVec 16)} (h : c.Held ws)
    (hlen : 2 * ws.length + 16 < 65536) :
    c.pusha.Held (c.savedWords ++ ws) := by
  refine (foldl_push_spec _ c ws h ?_).2.2.2.1
  simp only [List.length_cons, List.length_nil]
  omega

end

/-- The registers come back from the words `pusha` left. -/
theorem popa_spec {ws : List (BitVec 16)}
    (h : d.Held (c.savedWords ++ ws)) :
    d.popa.reg .sp = d.reg .sp + 16#16
      ∧ (∀ r, r ≠ .sp → d.popa.reg r = c.reg r)
      ∧ d.popa.Held ws := by
  obtain ⟨hdi, hsi, hbp, -, hbx, hdx, hcx, hax, hws⟩ := h
  have hsp : d.popa.reg .sp = d.reg .sp + 2#16 + 2#16 + 2#16 + 2#16 + 2#16
      + 2#16 + 2#16 + 2#16 := rfl
  refine ⟨?_, ?_, ?_⟩
  · rw [hsp]
    apply BitVec.eq_of_toNat_eq
    simp only [BitVec.toNat_add, BitVec.toNat_ofNat]
    omega
  · intro r hr
    cases r with
    | sp => exact absurd rfl hr
    | ax => exact hax
    | cx => exact hcx
    | dx => exact hdx
    | bx => exact hbx
    | bp => exact hbp
    | si => exact hsi
    | di => exact hdi
  · unfold Held
    rw [hsp]
    exact hws

-- ================================================================ frames

/-- `b` is neither the BIOS's own nor among the `n` bytes below SS:SP. -/
def Fixed (own : BitVec 64 → Prop) (n : Nat) (c : Pc ω) (b : BitVec 64) :
    Prop := ¬ own b ∧ ¬ Under (c.seg .ss) (c.reg .sp) n b

/-- Every fixed byte is the same. -/
def Spares (own : BitVec 64 → Prop) (n : Nat) (c d : Pc ω) : Prop :=
  ∀ b, Fixed own n c b → d.mem b = c.mem b

theorem Fixed.mono (h : Fixed own n c b) (hk : k ≤ n) : Fixed own k c b :=
  ⟨h.1, fun hu => h.2 (hu.mono hk)⟩

/-- A fixed byte seen from further down the stack. -/
theorem Fixed.below {j : Nat} (h : Fixed own (n + j) c b)
    (hseg : d.seg .ss = c.seg .ss)
    (hsp : d.reg .sp = c.reg .sp - BitVec.ofNat 16 j) : Fixed own n d b := by
  refine ⟨h.1, fun hu => h.2 ?_⟩
  rw [hseg, hsp] at hu
  exact hu.of_sub

theorem Fixed.congr (h : Fixed own n c b) (hseg : d.seg .ss = c.seg .ss)
    (hsp : d.reg .sp = c.reg .sp) : Fixed own n d b := by
  refine ⟨h.1, ?_⟩
  rw [hseg, hsp]
  exact h.2

theorem Spares.refl (own : BitVec 64 → Prop) (n : Nat) (c : Pc ω) :
    Spares own n c c := fun _ _ => rfl

theorem Spares.trans (h : Spares own n c d) (h' : Spares own n d e)
    (hseg : d.seg .ss = c.seg .ss) (hsp : d.reg .sp = c.reg .sp) :
    Spares own n c e :=
  fun b hb => (h' b (hb.congr hseg hsp)).trans (h b hb)

theorem Spares.mono (h : Spares own k c d) (hk : k ≤ n) :
    Spares own n c d :=
  fun b hb => h b (hb.mono hk)

/-- After `pusha`, seen from before it. -/
theorem Spares.of_pusha (h : Spares own n c.pusha d) :
    Spares own (n + 16) c d := by
  intro b hb
  rw [h b (hb.below (pusha_seg c ▸ rfl) c.pusha_sp)]
  exact c.pusha_mem fun hu => hb.2 (hu.mono (by omega))

/-- After a push, seen from before it. -/
theorem Spares.of_push {v : BitVec 16} (h : Spares own n (c.push v) d) :
    Spares own (n + 2) c d := by
  intro b hb
  rw [h b (hb.below rfl rfl)]
  exact c.push_mem v fun hu => hb.2 (hu.mono (by omega))

/-- None of the `n` bytes below `s:p` is the BIOS's own. -/
def Off (own : BitVec 64 → Prop) (s p : BitVec 16) (n : Nat) : Prop :=
  ∀ b, Under s p n b → ¬ own b

theorem Off.mono {s p : BitVec 16} (h : Off own s p n) (hk : k ≤ n) :
    Off own s p k := fun b hb => h b (hb.mono hk)

theorem Off.below {s p : BitVec 16} {j : Nat} (h : Off own s p (n + j)) :
    Off own s (p - BitVec.ofNat 16 j) n := fun b hb => h b hb.of_sub

/-- A byte above SP that the BIOS does not own is fixed. -/
theorem fixed_above {j : Nat} (hoff : Off own (c.seg .ss)
    (c.reg .sp + BitVec.ofNat 16 j) j) (hk : k < j) (hn : n + j ≤ 65536) :
    Fixed own n c (linear (c.seg .ss) (c.reg .sp + BitVec.ofNat 16 k)) := by
  refine ⟨hoff _ ?_, not_under (by omega)⟩
  have hu := under_add (s := c.seg .ss)
    (p := c.reg .sp + BitVec.ofNat 16 j) hk
  rwa [BitVec.add_sub_cancel] at hu

-- ================================================================= calls

/-- What a routine owes at its `ret`. -/
structure Returns (own : BitVec 64 → Prop) (n : Nat) (c d : Pc ω) :
    Prop where
  ip : d.ip = c.word .ss (c.reg .sp)
  sp : d.reg .sp = c.reg .sp + 2#16
  reg : ∀ r, r ≠ .sp → d.reg r = c.reg r
  ss : d.seg .ss = c.seg .ss
  mem : Spares own n c d

/-- The same from the caller's side. -/
structure Steady (own : BitVec 64 → Prop) (n : Nat) (c d : Pc ω) :
    Prop where
  reg : d.reg = c.reg
  ss : d.seg .ss = c.seg .ss
  mem : Spares own n c d

theorem Steady.trans (h : Steady own n c d) (h' : Steady own n d e) :
    Steady own n c e :=
  ⟨h'.reg.trans h.reg, h'.ss.trans h.ss,
    h.mem.trans h'.mem h.ss (congrFun h.reg .sp)⟩

theorem Steady.mono (h : Steady own k c d) (hk : k ≤ n) : Steady own n c d :=
  ⟨h.reg, h.ss, h.mem.mono hk⟩

/-- A called routine that returns comes back. -/
theorem call_steady {f : Pc ω → Outcome (Pc ω)} {back : BitVec 16}
    (hf : f (c.push back) = .ok d) (hd : Returns own n (c.push back) d) :
    c.call back f = .ok d ∧ Steady own (n + 2) c d := by
  have hip : d.ip = back := hd.ip.trans (c.push_top back)
  refine ⟨?_, ?_, hd.ss, hd.mem.of_push⟩
  · unfold call
    rw [hf]
    exact if_pos hip
  · funext r
    by_cases hr : r = .sp
    · rw [hr, hd.sp, push_sp, BitVec.sub_add_cancel]
    · rw [hd.reg r hr, c.push_reg back hr]

/-- What a call that came back ran. -/
theorem call_inv {f : Pc ω → Outcome (Pc ω)} {back : BitVec 16}
    (h : c.call back f = .ok d) : f (c.push back) = .ok d ∧ d.ip = back := by
  obtain ⟨e, hf, hif⟩ := bind_inv h
  by_cases hip : e.ip = back
  · rw [if_pos hip] at hif
    cases hif
    exact ⟨hf, hip⟩
  · rw [if_neg hip] at hif
    cases hif

/-- SP past a register save and a return address. -/
theorem leave_sp (c : Pc ω) : c.popa.ret.reg .sp = c.reg .sp + 18#16 := by
  show c.reg .sp + 2#16 + 2#16 + 2#16 + 2#16 + 2#16 + 2#16 + 2#16 + 2#16
    + 2#16 = _
  apply BitVec.eq_of_toNat_eq
  simp only [BitVec.toNat_add, BitVec.toNat_ofNat]
  omega

/-- `popa` and `ret`, when the stack since `pusha` was left alone. -/
theorem leave_spec (hss : d.seg .ss = c.seg .ss)
    (hsp : d.reg .sp = c.reg .sp - 16#16)
    (hmem : ∀ k < 18, d.mem (linear (c.seg .ss)
        (c.reg .sp - 16#16 + BitVec.ofNat 16 k))
      = c.pusha.mem (linear (c.seg .ss)
        (c.reg .sp - 16#16 + BitVec.ofNat 16 k))) :
    d.popa.ret.ip = c.word .ss (c.reg .sp)
      ∧ d.popa.ret.reg .sp = c.reg .sp + 2#16
      ∧ ∀ r, r ≠ .sp → d.popa.ret.reg r = c.reg r := by
  have hpush : c.pusha.Held (c.savedWords ++ [c.word .ss (c.reg .sp)]) :=
    c.pusha_held ⟨rfl, trivial⟩ (by simp)
  have hheld : d.Held (c.savedWords ++ [c.word .ss (c.reg .sp)]) := by
    unfold Held at hpush ⊢
    rw [pusha_sp, pusha_seg] at hpush
    rw [hss, hsp]
    exact hpush.congr hmem
  obtain ⟨h1, h2, h3, -⟩ := popa_spec hheld
  refine ⟨h3, ?_, ?_⟩
  · show d.popa.reg .sp + 2#16 = _
    rw [h1, hsp, BitVec.sub_add_cancel]
  · intro r hr
    exact (if_neg hr).trans (h2 r hr)

/-- A routine between `pusha` and `popa`. -/
theorem leave_returns (hss : d.seg .ss = c.seg .ss)
    (hsp : d.reg .sp = c.reg .sp - 16#16)
    (hmem : Spares own n c.pusha d)
    (hoff : Off own (c.seg .ss) (c.reg .sp + 2#16) 18)
    (hn : n + 18 ≤ 65536) : Returns own (n + 16) c d.popa.ret := by
  have hback : c.reg .sp - 16#16 + 18#16 = c.reg .sp + 2#16 := by
    apply BitVec.eq_of_toNat_eq
    simp only [BitVec.toNat_sub, BitVec.toNat_add, BitVec.toNat_ofNat]
    omega
  obtain ⟨h1, h2, h3⟩ := leave_spec hss hsp fun k hk => by
    have hoff' : Off own (c.pusha.seg .ss)
        (c.pusha.reg .sp + BitVec.ofNat 16 18) 18 := by
      rw [pusha_sp, pusha_seg, hback]
      exact hoff
    have hfix := fixed_above (n := n) hoff' hk hn
    rw [pusha_sp, pusha_seg] at hfix
    exact hmem _ hfix
  exact ⟨h1, h2, h3, hss, hmem.of_pusha⟩

end Pc

end BootLoader.RealMode
