/-
What clearing a page does: `looping2` for the PML4 page, and
`build_page_table2` for every table page after it.

Both run the same 512 rounds. `Cleared` is the loop's contract, proved
with the counting rule; `build_page_table2_spec` puts the register save
around it.
-/
import BootLoader.Lib.Words
import BootLoader.ThirdStage.BigPageTable

namespace BootLoader.ThirdStage

open FlatMemory Words

variable {c d : Cpu}

/-- `d` is `c` with `n` bytes from `a` cleared; registers other than the
pointer and the counter are as before. -/
structure Cleared (a n : Nat) (c d : Cpu) : Prop where
  reg : ∀ r, r ≠ .rcx → r ≠ .r8 → d.reg r = c.reg r
  zero : ∀ b : BitVec 64, a ≤ b.toNat → b.toNat < a + n → d.mem b = 0
  rest : ∀ b : BitVec 64, b.toNat < a ∨ a + n ≤ b.toNat → d.mem b = c.mem b
  log : ∀ x ∈ d.log, x ∈ c.log
    ∨ (a ≤ x.addr.toNat ∧ x.addr.toNat + x.size ≤ a + n)
  last : 0 < n → ∃ x ∈ d.log, x.addr.toNat + x.size = a + n

theorem Cleared.none (a : Nat) (c : Cpu) : Cleared a 0 c c where
  reg := fun _ _ _ => rfl
  zero := fun b h1 h2 => by omega
  rest := fun _ _ => rfl
  log := fun _ hx => Or.inl hx
  last := fun h => absurd h (Nat.lt_irrefl 0)

/-- One round clears the next eight bytes. -/
theorem Cleared.round {a n : Nat} (h : Cleared a n c d)
    (hptr : (d.reg .rcx).toNat = a + n) (hroom : a + n + 8 ≤ 2 ^ 64) :
    Cleared a (n + 8) c (clear_round d) := by
  have hmem : (clear_round d).mem = d.mem.write64 (d.reg .rcx) 0#64 := rfl
  refine ⟨?_, ?_, ?_, ?_, ?_⟩
  · intro r h1 h2
    rw [← h.reg r h1 h2]
    exact (if_neg h2).trans (if_neg h1)
  · intro b h1 h2
    rw [hmem]
    rcases Nat.lt_or_ge b.toNat (a + n) with hlt | hge
    · rw [← h.zero b h1 hlt]
      exact @Mem.write_apply_of_out d.mem (d.reg .rcx) b 8 0#64 (by omega)
        (by omega)
    · exact Mem.write64_zero (a := d.reg .rcx) _ (by omega)
        (by omega) (by omega)
  · intro b hb
    rw [hmem, ← h.rest b (by omega)]
    exact @Mem.write_apply_of_out d.mem (d.reg .rcx) b 8 0#64 (by omega)
      (by omega)
  · intro x hx
    have hx' : x ∈ (⟨true, d.reg .rcx, 8⟩ : Access) :: d.log := hx
    rcases List.mem_cons.1 hx' with rfl | hx'
    · refine Or.inr ?_
      show a ≤ (d.reg .rcx).toNat ∧ (d.reg .rcx).toNat + 8 ≤ a + (n + 8)
      omega
    · rcases h.log x hx' with hx' | hx'
      · exact Or.inl hx'
      · exact Or.inr (by omega)
  · intro _
    refine ⟨⟨true, d.reg .rcx, 8⟩, List.mem_cons_self .., ?_⟩
    show (d.reg .rcx).toNat + 8 = a + (n + 8)
    omega

/-- The loop: a page at RCX. -/
theorem clear_loop_spec (hcount : c.reg .r8 = 0x200#64)
    (hroom : (c.reg .rcx).toNat + 0x1000 < 2 ^ 64) :
    Cleared (c.reg .rcx).toNat 0x1000 c (clear_loop c) := by
  unfold clear_loop
  refine (@Loop.doWhile_counted Cpu (fun c => c.reg .r8 != 0#64) clear_round
    (fun k d => Cleared (c.reg .rcx).toNat (8 * k) c d
      ∧ (d.reg .rcx).toNat = (c.reg .rcx).toNat + 8 * k
      ∧ (d.reg .r8).toNat = 0x200 - k)
    0x200 (by omega) ?_ ?_ ?_ 0x200 c (Nat.le_refl _)
    ⟨Cleared.none _ c, rfl, by rw [hcount]; rfl⟩).1
  · intro k e hk ⟨hc, hptr, hcnt⟩
    refine ⟨hc.round hptr (by omega), ?_, ?_⟩
    · show (e.reg .rcx + 0x8#64).toNat = _
      rw [toNat_add_lit (by omega), hptr]
      omega
    · show (e.reg .r8 - 1#64).toNat = _
      simp only [BitVec.toNat_sub, BitVec.toNat_ofNat]
      omega
  · intro k e _ hk ⟨_, _, hcnt⟩
    rw [bne_iff_ne]
    intro hz
    rw [hz] at hcnt
    simp only [BitVec.toNat_ofNat] at hcnt
    omega
  · intro e ⟨_, _, hcnt⟩
    have hz : e.reg .r8 = 0#64 := BitVec.eq_of_toNat_eq (by rw [hcnt]; rfl)
    rw [hz]
    rfl

/-- `looping2` with the registers `third_stage` loads. -/
theorem third_stage_spec (c : Cpu) :
    Cleared 0x100000 0x1000 c (third_stage c) := by
  have h := clear_loop_spec (c := (c.set .r8 0x200#64).set .rcx 0x100000#64)
    rfl (by show (0x100000#64).toNat + 0x1000 < 2 ^ 64; decide)
  refine ⟨?_, h.zero, h.rest, h.log, h.last⟩
  intro r h1 h2
  have hr := h.reg r h1 h2
  rw [Cpu.set_reg_of_ne h1, Cpu.set_reg_of_ne h2] at hr
  exact hr

/-- `build_page_table2` clears the page at RCX and shows nowhere else
above 0x20000; the registers are back. -/
theorem build_page_table2_spec (hs : StackOk c)
    (hlow : 0x100000 ≤ (c.reg .rcx).toNat)
    (hroom : (c.reg .rcx).toNat + 0x1000 < 2 ^ 64) :
    (build_page_table2 c).reg = c.reg
      ∧ (∀ b : BitVec 64, (c.reg .rcx).toNat ≤ b.toNat →
          b.toNat < (c.reg .rcx).toNat + 0x1000 →
          (build_page_table2 c).mem b = 0)
      ∧ (∀ b : BitVec 64, 0x20000 ≤ b.toNat →
          (b.toNat < (c.reg .rcx).toNat
            ∨ (c.reg .rcx).toNat + 0x1000 ≤ b.toNat) →
          (build_page_table2 c).mem b = c.mem b)
      ∧ (∀ x ∈ (build_page_table2 c).log, x ∈ c.log ∨ x.Below 0x100000
          ∨ ((c.reg .rcx).toNat ≤ x.addr.toNat
            ∧ x.addr.toNat + x.size ≤ (c.reg .rcx).toNat + 0x1000))
      ∧ ∃ x ∈ (build_page_table2 c).log,
          x.addr.toNat + x.size = (c.reg .rcx).toNat + 0x1000 := by
  obtain ⟨hlo, hhi⟩ := hs
  obtain ⟨-, hpreg, hpmem, hplog⟩ := Cpu.pushaq_spec (c := c) (by omega)
  have hrcx : c.pushaq.reg .rcx = c.reg .rcx := hpreg .rcx (by decide)
  have hloop := clear_loop_spec (c := c.pushaq.set .r8 0x200#64) rfl
    (by show (c.pushaq.reg .rcx).toNat + _ < _; rw [hrcx]; omega)
  have hunf : build_page_table2 c
      = (clear_loop (c.pushaq.set .r8 0x200#64)).popaq := rfl
  rw [hunf]
  have hbase : ((c.pushaq.set .r8 0x200#64).reg .rcx).toNat
      = (c.reg .rcx).toNat := congrArg BitVec.toNat hrcx
  rw [hbase] at hloop
  generalize clear_loop (c.pushaq.set .r8 0x200#64) = d at hloop
  obtain ⟨hreg, hmem, hlog⟩ := Cpu.popaq_spec (c := c) (d := d) (by omega)
    (hloop.reg .rsp (by decide) (by decide))
    (fun b _ h2 => hloop.rest b (by omega))
  refine ⟨hreg, ?_, ?_, ?_, ?_⟩
  · intro b h1 h2
    rw [hmem]
    exact hloop.zero b h1 h2
  · intro b h1 h2
    rw [hmem, hloop.rest b h2]
    exact hpmem b (Or.inr (by omega))
  · intro x hx
    unfold Access.Below at hlog hplog ⊢
    rcases hlog x hx with hx | hx
    · rcases hloop.log x hx with hx | hx
      · rcases hplog x hx with hx | hx
        · exact Or.inl hx
        · exact Or.inr (Or.inl (by omega))
      · exact Or.inr (Or.inr hx)
    · exact Or.inr (Or.inl (by omega))
  · obtain ⟨x, hx, hend⟩ := hloop.last (by omega)
    exact ⟨x, Cpu.mem_log_popaq hx, hend⟩

end BootLoader.ThirdStage
