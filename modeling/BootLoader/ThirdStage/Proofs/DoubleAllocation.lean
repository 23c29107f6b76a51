/-
Two allocators on one memory.

Table pages are taken at RCX and data frames at RBX, both from the same
usable memory, and neither search looks at what the other pointer has
passed. `Unclaimed` is the check the code does not make: the page about to
be taken is not one the other allocator has handed out. A run is free of
double allocations exactly as long as every page it takes is unclaimed.

Page 512 always gets the frame 0x200000, and 2566 tables cannot stay below
it. So on memory without holes there (`Alloc.Dense`) every run that comes
to its end has stored a table over that frame.
-/
import BootLoader.ThirdStage.Proofs.SoftwareTables
import BootLoader.ThirdStage.Proofs.IdentityMap

namespace BootLoader.ThirdStage

open FlatMemory RadixTables Words

variable {m₀ : Mem} {L : Layout} {zf : Bool} {s : Boot} {c : Cpu}

-- =============================================================== one step

namespace Alloc

variable {U : Nat → Bool} {a : Alloc}

/-- On memory without holes up to 0x200003: the tables stand less than
two pages apart there, so one of them comes to lie over 0x200000. -/
def Dense (a : Alloc) : Prop :=
  (∃ x ∈ a.tables, 0x1FF003 ≤ x.2 ∧ x.2 ≤ 0x200003)
    ∨ (a.ptr ≤ 0x200003
      ∧ ((∀ k, a.pc ≠ .approve_allocate k) → a.ptr ≤ 0x1FF003))

theorem Dense.step (h : Dense a) (hi : Inv U a)
    (hU : ∀ x ≤ 0x200003, U x = true) : Dense (a.step U zf) := by
  have hsame : (∀ k, a.pc ≠ .approve_allocate k) → ∀ b : Alloc,
      b.tables = a.tables → b.ptr = a.ptr → Dense b := by
    intro hpc b htab hptr
    unfold Dense
    rw [htab, hptr]
    rcases h with hhit | ⟨-, hlow⟩
    · exact Or.inl hhit
    · exact Or.inr ⟨Nat.le_trans (hlow hpc) (by omega), fun _ => hlow hpc⟩
  unfold Alloc.step
  cases hpc : a.pc with
  | adjust_then_call k =>
      rcases h with hhit | ⟨-, hlow⟩
      · exact Or.inl hhit
      · -- one page on, and accepted there
        have hle := hlow (by simp [hpc])
        have hyes : U (a.ptr + 0x1000) = true := hU _ (by omega)
        have hnext : (a.adjust U k).pc = .approve_allocate k := if_pos hyes
        refine Or.inr ⟨?_, fun hne => absurd hnext (hne k)⟩
        show a.ptr + 0x1000 ≤ 0x200003
        omega
  | approve_allocate k =>
      rcases h with ⟨x, hx, hhit⟩ | ⟨hle, -⟩
      · exact Or.inl ⟨x, List.mem_append_left _ hx, hhit⟩
      · obtain ⟨htag, hres⟩ := hi.tables.tag_ptr
        have hmod := hi.tables.residue
        rcases Nat.lt_or_ge (tag a.ptr) 0x1FF003 with hlt | hge
        · refine Or.inr ⟨?_, fun _ => ?_⟩
          · show tag a.ptr + 0x1000 ≤ 0x200003
            omega
          · show tag a.ptr + 0x1000 ≤ 0x1FF003
            omega
        · refine Or.inl ⟨(k, tag a.ptr),
            List.mem_append_right _ (List.mem_singleton_self _), hge, ?_⟩
          show tag a.ptr ≤ 0x200003
          split at hmod <;> omega
  | page_walk => exact hsame (by simp [hpc]) _ rfl rfl
  | allocate k => cases k <;> exact hsame (by simp [hpc]) _ rfl rfl
  | skip k => cases k <;> exact hsame (by simp [hpc]) _ rfl rfl
  | allocate4 => exact hsame (by simp [hpc]) _ rfl rfl
  | adjust_then_call4 => exact hsame (by simp [hpc]) _ rfl rfl
  | approve_allocate4 => exact hsame (by simp [hpc]) _ rfl rfl
  | skip4 => exact hsame (by simp [hpc]) _ rfl rfl
  | returned => exact hsame (by simp [hpc]) _ rfl rfl
  | done => exact h

/-- A finished run has 2566 tables, so the one over 0x200000 is there. -/
theorem Dense.done (h : Dense a) (hi : Inv U a) (hpc : a.pc = .done) :
    ∃ x ∈ a.tables, 0x1FF003 ≤ x.2 ∧ x.2 ≤ 0x200003 := by
  rcases h with hhit | ⟨-, hlow⟩
  · exact hhit
  · have hle := hlow (by simp [hpc])
    have hlen := (hi.counts.done_length hpc).1
    have hcount : tableCount = 2566 := rfl
    rcases pages_span a.tables 0x101003
      (fun x hx => (hi.tables.page x hx).2.1) hi.tables.rising
      with hnil | ⟨x, hx, hspan⟩
    · rw [hnil] at hlen
      exact absurd hlen (by decide)
    · have := (hi.tables.page x hx).2.2
      omega

end Alloc

end BootLoader.ThirdStage
