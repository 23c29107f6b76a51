/-
Where `check_a20_gate` returns to.

# Visits

`check_a20_gate` is entered once by its caller and once more after every
'disabled' answer. Each entry saves the registers again, and only the last
save is ever popped, so after `k` such rounds SP comes back `16 k` bytes
short and `ret` takes its address from the save before (`skip_spec`). The
entries of a run are `visit B e 0`, `visit B e 1`, ...; what the BIOS
answers there is all the control flow depends on (`run_answers`).

SP is a 16-bit register, so `16 k` bytes short is not short at all when
4096 divides `k`. The theorem says what is needed of such a run, too.
-/
import BootLoader.SecondStage.A20Gate
import BootLoader.FirstStage.Proofs.BiosPrint

namespace BootLoader.SecondStage

open FlatMemory Segment RealMode Pc FirstStage

variable {ω : Type _} {B : Bios ω} {L : A20} {own : BitVec 64 → Prop}
  {depth fuel : Nat} {c d e : Pc ω} {back : BitVec 16}

-- =============================================================== visits

/-- The machine with the answer to the status call (AX = 2402h). -/
def statusAsked (B : Bios ω) (e : Pc ω) : Pc ω :=
  (e.pusha.set .ax 0x2402#16).int B 0x15#8

/-- The machine with the answer to the enable call (AX = 2401h). -/
def enableAsked (B : Bios ω) (e : Pc ω) : Pc ω :=
  ((statusAsked B e).set .ax 0x2401#16).int B 0x15#8

/-- The machine as it enters `check_a20_gate` for the `k`-th time again. -/
def visit (B : Bios ω) (e : Pc ω) : Nat → Pc ω
  | 0 => e
  | k + 1 => enableAsked B (visit B e k)

def SaysDisabled (B : Bios ω) (e : Pc ω) : Prop :=
  (statusAsked B e).carry = false ∧ (statusAsked B e).low8 .ax = 0#8

def SaysEnabled (B : Bios ω) (e : Pc ω) : Prop :=
  (statusAsked B e).carry = false ∧ (statusAsked B e).low8 .ax ≠ 0#8

/-- From entry `e`, `k` times 'disabled' and a successful enable, and then
'enabled'. -/
structure Answers (B : Bios ω) (e : Pc ω) (k : Nat) : Prop where
  disabled : ∀ j < k, SaysDisabled B (visit B e j)
  enable : ∀ j < k, (visit B e (j + 1)).carry = false
  enabled : SaysEnabled B (visit B e k)

theorem visit_succ (B : Bios ω) (e : Pc ω) (k : Nat) :
    visit B (enableAsked B e) k = visit B e (k + 1) := by
  induction k with
  | zero => rfl
  | succ k ih =>
      show enableAsked B (visit B (enableAsked B e) k) = _
      rw [ih]
      rfl

theorem Answers.cons {k : Nat} (h : Answers B (enableAsked B e) k)
    (hdis : SaysDisabled B e) (hen : (enableAsked B e).carry = false) :
    Answers B e (k + 1) := by
  refine ⟨?_, ?_, ?_⟩
  · intro j hj
    cases j with
    | zero => exact hdis
    | succ j =>
        rw [← visit_succ]
        exact h.disabled j (by omega)
  · intro j hj
    cases j with
    | zero => exact hen
    | succ j =>
        rw [← visit_succ]
        exact h.enable j (by omega)
  · rw [← visit_succ]
    exact h.enabled

-- ================================================================ the run

theorem a20_print_hang_ne {msg : BitVec 16} :
    a20_print_hang B fuel msg back c ≠ .ok d := by
  intro h
  obtain ⟨e, -, hhang⟩ := bind_inv h
  cases hhang

theorem check_a20_error_ne : check_a20_error B L fuel c ≠ .ok d := by
  unfold check_a20_error
  split
  · exact a20_print_hang_ne
  · split
    · exact a20_print_hang_ne
    · exact a20_print_hang_ne

theorem enable_a20_error_ne : enable_a20_error B L fuel c ≠ .ok d := by
  unfold enable_a20_error
  split
  · exact a20_print_hang_ne
  · split
    · exact a20_print_hang_ne
    · exact a20_print_hang_ne

/-- A run that returns had some number of rounds, and left through
`.skip`. -/
theorem run_answers : ∀ (rounds : Nat) (e : Pc ω),
    check_a20_gate B L fuel rounds e = .ok d →
    ∃ k, Answers B e k
      ∧ a20_skip B L fuel (statusAsked B (visit B e k)) = .ok d := by
  intro rounds
  induction rounds with
  | zero =>
      intro e h
      cases h
  | succ rounds ih =>
      intro e h
      have hstep : check_a20_gate B L fuel (rounds + 1) e
          = if (statusAsked B e).carry then
              check_a20_error B L fuel (statusAsked B e)
            else if (statusAsked B e).low8 .ax = 0#8 then
              if (enableAsked B e).carry then
                enable_a20_error B L fuel (enableAsked B e)
              else check_a20_gate B L fuel rounds (enableAsked B e)
            else a20_skip B L fuel (statusAsked B e) := rfl
      rw [hstep] at h
      cases hcarry : (statusAsked B e).carry with
      | true =>
          rw [hcarry] at h
          exact absurd h check_a20_error_ne
      | false =>
          simp only [hcarry, Bool.false_eq_true, if_false] at h
          by_cases hal : (statusAsked B e).low8 .ax = 0#8
          · rw [if_pos hal] at h
            cases hen : (enableAsked B e).carry with
            | true =>
                rw [hen] at h
                exact absurd h enable_a20_error_ne
            | false =>
                simp only [hen, Bool.false_eq_true, if_false] at h
                obtain ⟨k, hk, hskip⟩ := ih _ h
                refine ⟨k + 1, hk.cons ⟨hcarry, hal⟩ hen, ?_⟩
                rw [← visit_succ]
                exact hskip
          · rw [if_neg hal] at h
            exact ⟨0, ⟨fun j hj => absurd hj (Nat.not_lt_zero j),
              fun j hj => absurd hj (Nat.not_lt_zero j), hcarry, hal⟩, h⟩

-- ============================================================== the stack

/-- A BIOS whose A20 services (INT 15h, AX = 2401h and 2402h) keep the
stack. -/
def A20Services (B : Bios ω) (own : BitVec 64 → Prop) (depth : Nat) : Prop :=
  ∀ c : Pc ω, c.reg .ax = 0x2402#16 ∨ c.reg .ax = 0x2401#16 →
    (B 0x15#8 c).reg .sp = c.reg .sp ∧ (B 0x15#8 c).seg .ss = c.seg .ss
      ∧ c.Spares own depth (B 0x15#8 c)

theorem statusAsked_spec (hS : A20Services B own depth) (e : Pc ω) :
    (statusAsked B e).reg .sp = e.reg .sp - 16#16
      ∧ (statusAsked B e).seg .ss = e.seg .ss
      ∧ e.pusha.Spares own depth (statusAsked B e) := by
  obtain ⟨hsp, hss, hmem⟩ := hS (e.pusha.set .ax 0x2402#16) (Or.inl rfl)
  exact ⟨hsp.trans e.pusha_sp, hss, fun b hb => hmem b (hb.congr rfl rfl)⟩

theorem visit_spec (hS : A20Services B own depth) (e : Pc ω) (k : Nat) :
    (visit B e k).reg .sp = e.reg .sp - BitVec.ofNat 16 (16 * k)
      ∧ (visit B e k).seg .ss = e.seg .ss := by
  induction k with
  | zero => exact ⟨(BitVec.sub_zero _).symm, rfl⟩
  | succ k ih =>
      obtain ⟨ihsp, ihss⟩ := ih
      obtain ⟨hsp, hss, -⟩ := statusAsked_spec hS (visit B e k)
      obtain ⟨hsp', hss', -⟩ :=
        hS ((statusAsked B (visit B e k)).set .ax 0x2401#16) (Or.inr rfl)
      refine ⟨?_, hss'.trans (hss.trans ihss)⟩
      refine hsp'.trans (hsp.trans ?_)
      rw [ihsp]
      apply BitVec.eq_of_toNat_eq
      simp only [BitVec.toNat_sub, BitVec.toNat_ofNat]
      omega

/-- The last visit's own save is popped, and the word above it taken for
the return address. -/
theorem skip_spec (hB : Teletype B own depth) (hS : A20Services B own depth)
    (h : a20_skip B L fuel (statusAsked B e) = .ok d) :
    d.reg .sp = e.reg .sp + 2#16
      ∧ (Off own (e.seg .ss) (e.reg .sp + 2#16) 18 → depth + 36 ≤ 65536 →
        d.ip = e.word .ss (e.reg .sp)
          ∧ ∀ r, r ≠ .sp → d.reg r = e.reg r) := by
  obtain ⟨hsp, hss, hmem⟩ := statusAsked_spec hS e
  obtain ⟨u, hcall, hd⟩ := bind_inv h
  cases hd
  obtain ⟨useg, usp, umem⟩ := call_bios_print_frame hB hcall
  have uss : u.seg .ss = e.seg .ss := (congrFun useg .ss).trans hss
  have usp' : u.reg .sp = e.reg .sp - 16#16 := usp.trans hsp
  refine ⟨?_, fun hoff hdepth => ?_⟩
  · rw [leave_sp, usp']
    apply BitVec.eq_of_toNat_eq
    simp only [BitVec.toNat_sub, BitVec.toNat_add, BitVec.toNat_ofNat]
    omega
  · have hspare : e.pusha.Spares own (depth + 18) u := by
      intro b hb
      have hfix := hb.congr
        (d := (statusAsked B e).set .si L.a20_enabled_msg) hss
        (hsp.trans e.pusha_sp.symm)
      exact (umem b hfix).trans (hmem b (hb.mono (by omega)))
    have hret := leave_returns uss usp' hspare hoff (by omega)
    exact ⟨hret.ip, hret.reg⟩

-- ======================================================== where it returns

/-- Back at the instruction after the call, with SP and the other 16-bit
registers as at entry, on an answer of 'enabled'. -/
structure ReturnsRight (B : Bios ω) (c : Pc ω) (back : BitVec 16)
    (k : Nat) (d : Pc ω) : Prop where
  ip : d.ip = back
  reg : d.reg = c.reg
  enabled : SaysEnabled B (visit B (c.push back) k)

/-- `check_a20_gate`, called with `back` as its return address, that
returns at all, returns right exactly when the first answer is 'enabled',
or when SP has gone round the whole segment and what lies there happens
to be right. -/
theorem check_a20_gate_right_iff (hB : Teletype B own depth)
    (hS : A20Services B own depth) (hdepth : depth + 36 ≤ 65536)
    (hoff : Off own (c.seg .ss) (c.reg .sp) 18) {rounds : Nat}
    (hret : check_a20_gate B L fuel rounds (c.push back) = .ok d) :
    ∃ k, Answers B (c.push back) k
      ∧ (ReturnsRight B c back k d ↔ k = 0
        ∨ (4096 ∣ k
          ∧ (visit B (c.push back) k).word .ss
              ((visit B (c.push back) k).reg .sp) = back
          ∧ ∀ r, r ≠ .sp → (visit B (c.push back) k).reg r = c.reg r)) := by
  obtain ⟨k, hans, hskip⟩ := run_answers rounds _ hret
  obtain ⟨vsp, vss⟩ := visit_spec hS (c.push back) k
  obtain ⟨dsp, hpop⟩ := skip_spec hB hS hskip
  have hdsp : d.reg .sp = c.reg .sp - BitVec.ofNat 16 (16 * k) := by
    rw [dsp, vsp, push_sp]
    apply BitVec.eq_of_toNat_eq
    simp only [BitVec.toNat_sub, BitVec.toNat_add, BitVec.toNat_ofNat]
    omega
  -- where SP is back, the save lies where the first one would
  have hback : 4096 ∣ k → d.reg .sp = c.reg .sp
      ∧ d.ip = (visit B (c.push back) k).word .ss
        ((visit B (c.push back) k).reg .sp)
      ∧ ∀ r, r ≠ .sp → d.reg r = (visit B (c.push back) k).reg r := by
    rintro ⟨j, rfl⟩
    have hzero : BitVec.ofNat 16 (16 * (4096 * j)) = 0#16 := by
      apply BitVec.eq_of_toNat_eq
      rw [BitVec.toNat_ofNat, BitVec.toNat_ofNat]
      omega
    rw [hzero, BitVec.sub_zero] at hdsp vsp
    refine ⟨hdsp, hpop ?_ hdepth⟩
    rw [vss, vsp, push_sp, BitVec.sub_add_cancel]
    exact hoff
  refine ⟨k, hans, ?_, ?_⟩
  · intro hright
    have hdvd : 4096 ∣ k := by
      have hn := congrArg BitVec.toNat
        (hdsp.symm.trans (congrFun hright.reg .sp))
      simp only [BitVec.toNat_sub, BitVec.toNat_ofNat] at hn
      omega
    obtain ⟨-, hip, hreg⟩ := hback hdvd
    refine Or.inr ⟨hdvd, hip.symm.trans hright.ip, fun r hr => ?_⟩
    exact (hreg r hr).symm.trans (congrFun hright.reg r)
  · intro hcond
    have hall : 4096 ∣ k ∧ (visit B (c.push back) k).word .ss
          ((visit B (c.push back) k).reg .sp) = back
        ∧ ∀ r, r ≠ .sp → (visit B (c.push back) k).reg r = c.reg r := by
      rcases hcond with rfl | hcond
      · exact ⟨⟨0, rfl⟩, c.push_top back, fun r hr => c.push_reg back hr⟩
      · exact hcond
    obtain ⟨hdvd, htop, hvreg⟩ := hall
    obtain ⟨hsp, hip, hreg⟩ := hback hdvd
    refine ⟨hip.trans htop, ?_, hans.enabled⟩
    funext r
    by_cases hr : r = .sp
    · rw [hr, hsp]
    · exact (hreg r hr).trans (hvreg r hr)

-- =============================================================== a sample

/-- A BIOS that answers 'disabled' as often as its hidden count says. -/
def a20Bios : Bios Nat := fun n c =>
  if n = 0x15#8 then
    if c.reg .ax = 0x2402#16 then
      { c.set .ax (if c.bios = 0 then 1#16 else 0#16) with carry := false }
    else { c with carry := false, bios := c.bios - 1 }
  else c

/-- The machine in the second stage, with an empty message at 0. -/
def a20Pc (disabled : Nat) : Pc Nat where
  reg := fun r => if r = .sp then 0xB000#16 else 0#16
  high := fun _ => 0#16
  seg := fun _ => 0#16
  carry := false
  eflags := 0#32
  ip := 0#16
  mem := fun _ => 0#8
  loads := []
  issued := []
  bios := disabled

def a20Labels : A20 := ⟨0#16, 0#16, 0#16, 0#16, fun _ => 0xC100#16⟩

theorem a20Bios_teletype : Teletype a20Bios (fun _ => False) 0 :=
  fun _ _ => ⟨fun _ _ => rfl, fun _ _ => rfl, rfl, fun _ _ => rfl⟩

theorem a20Bios_services : A20Services a20Bios (fun _ => False) 0 := by
  rintro c (h | h)
  · have hint : a20Bios 0x15#8 c = { c.set .ax
        (if c.bios = 0 then 1#16 else 0#16) with carry := false } := by
      simp only [a20Bios, h, if_true]
    rw [hint]
    exact ⟨rfl, rfl, fun _ _ => rfl⟩
  · have hint : a20Bios 0x15#8 c
        = { c with carry := false, bios := c.bios - 1 } := by
      have hne : (0x2401#16 : BitVec 16) ≠ 0x2402#16 := by decide
      simp only [a20Bios, h, if_true, if_neg hne]
    rw [hint]
    exact ⟨rfl, rfl, fun _ _ => rfl⟩

/-- With A20 already on. -/
theorem check_a20_gate_right_iff_sample : ∃ d k,
    check_a20_gate a20Bios a20Labels 1 1 ((a20Pc 0).push 0xC064#16) = .ok d
      ∧ Answers a20Bios ((a20Pc 0).push 0xC064#16) k
      ∧ (ReturnsRight a20Bios (a20Pc 0) 0xC064#16 k d ↔ k = 0
        ∨ (4096 ∣ k
          ∧ (visit a20Bios ((a20Pc 0).push 0xC064#16) k).word .ss
              ((visit a20Bios ((a20Pc 0).push 0xC064#16) k).reg .sp)
            = 0xC064#16
          ∧ ∀ r, r ≠ .sp → (visit a20Bios ((a20Pc 0).push 0xC064#16) k).reg r
            = (a20Pc 0).reg r)) := by
  have hret : ∃ d, check_a20_gate a20Bios a20Labels 1 1
      ((a20Pc 0).push 0xC064#16) = .ok d := ⟨_, rfl⟩
  obtain ⟨d, hd⟩ := hret
  obtain ⟨k, hk⟩ := check_a20_gate_right_iff a20Bios_teletype
    a20Bios_services (by omega) (fun _ _ h => h) hd
  exact ⟨d, k, hd, hk⟩

/-- With A20 off at first: one 'disabled', one successful enable, and the
routine comes back to the DI of its first entry, SP 16 bytes short. -/
theorem check_a20_gate_astray : ∃ d,
    check_a20_gate a20Bios a20Labels 1 2 ((a20Pc 1).push 0xC064#16) = .ok d
      ∧ Answers a20Bios ((a20Pc 1).push 0xC064#16) 1
      ∧ d.ip = 0#16 ∧ d.reg .sp = 0xAFF0#16
      ∧ ¬ ReturnsRight a20Bios (a20Pc 1) 0xC064#16 1 d := by
  have hret : ∃ d, check_a20_gate a20Bios a20Labels 1 2
      ((a20Pc 1).push 0xC064#16) = .ok d ∧ d.ip = 0#16
        ∧ d.reg .sp = 0xAFF0#16 := ⟨_, rfl, by decide, by decide⟩
  obtain ⟨d, hd, hip, hsp⟩ := hret
  refine ⟨d, hd, ⟨?_, ?_, by decide, by decide⟩, hip, hsp, ?_⟩
  · intro j hj
    obtain rfl : j = 0 := by omega
    exact ⟨by decide, by decide⟩
  · intro j hj
    obtain rfl : j = 0 := by omega
    decide
  · intro h
    have hne := hip.symm.trans h.ip
    revert hne
    decide

end BootLoader.SecondStage
