/-
Which frame `allocate4` chooses.

Past 0x200000 the search of `allocate4` starts with `adjust_then_call4`,
which moves RBX one page on before it asks. So the address RBX stands at
is never asked about, although `approve_allocate4` has already moved it
past the frame before. The frame stored is the first accepted one from
the next page on (`takes_iff`), and that is the lowest one from RBX on
exactly where RBX itself would have been rejected (`takes_lowest_iff`).

The search is followed on the allocator model; `Held.run` carries it to
the machine.
-/
import Mathlib.Data.Nat.Find
import BootLoader.ThirdStage.Proofs.SoftwareTables
import BootLoader.ThirdStage.Proofs.IdentityMap

namespace BootLoader.ThirdStage

open FlatMemory RadixTables Words

variable {m₀ : Mem} {L : Layout} {s : Boot} {c : Cpu} {f : BitVec 64}

-- ========================================================== the property

/-- `loop_over_mem_regions` accepts `f`. -/
def Accepted (L : Layout) (c : Cpu) (f : BitVec 64) : Prop :=
  (loop_over_mem_regions L (c.set .r14 f)).mem L.flag = 1#8

/-- The lowest multiple of the page size from `b` on that is accepted. -/
structure LowestFrame (L : Layout) (c : Cpu) (b f : BitVec 64) : Prop where
  aligned : f.toNat % 0x1000 = 0
  from_on : b.toNat ≤ f.toNat
  accepted : Accepted L c f
  lowest : ∀ g : BitVec 64, g.toNat % 0x1000 = 0 → b.toNat ≤ g.toNat →
    Accepted L c g → f.toNat ≤ g.toNat

/-- From `s` the next frame stored is `f`, for the page in R8, in the leaf
entry that page reaches. The pointers stay below 2^63 up to there. -/
def Takes (L : Layout) (s : Boot) (f : BitVec 64) : Prop :=
  ∀ z, ∃ n,
    (∀ k ≤ n, Bounded (Run.run (step L) z s k)
      ∧ (Run.run (step L) z s k).frames = s.frames)
    ∧ (Run.run (step L) z s (n + 1)).frames
      = s.frames ++ [(s.cpu.reg .r8, f)]
    ∧ leafOf (Run.run (step L) z s (n + 1)).cpu.mem (s.cpu.reg .r8) = some f

/-- The frame stored is the lowest acceptable one from RBX on. -/
def TakesLowest (L : Layout) (s : Boot) : Prop :=
  ∀ f : BitVec 64, f.toNat < 2 ^ 63 →
    (Takes L s f ↔ LowestFrame L s.cpu (s.cpu.reg .rbx) f)

theorem accepted_iff (h : Held m₀ s) :
    Accepted L s.cpu f ↔ accepts m₀ f.toNat = true := by
  have hs : StackOk (s.cpu.set .r14 f) := h.core.stack
  obtain ⟨-, hflag⟩ := loop_over_mem_regions_spec (L := L) hs
  unfold Accepted
  rw [hflag, Cpu.set_reg_self, accepts_reg h ((Calm.refl _).set (by decide) f)]
  cases accepts m₀ f.toNat
  · decide
  · decide

-- ============================================================ the search

namespace Alloc

variable {U : Nat → Bool} {a : Alloc} {z : Nat → Bool}

/-- Rounds of the frame search while all is rejected but perhaps the
last. -/
theorem search (hpc : a.pc = .adjust_then_call4) : ∀ k : Nat,
    (∀ j, 1 ≤ j → j ≤ k → U (a.data + 0x1000 * j) = false) →
    Run.run (step U) z a k = { a with data := a.data + 0x1000 * k }
      ∧ Run.run (step U) z a (k + 1)
        = { a with
            data := a.data + 0x1000 * (k + 1)
            pc := if U (a.data + 0x1000 * (k + 1)) then .approve_allocate4
              else .adjust_then_call4 } := by
  have hround : ∀ k b, b = { a with data := a.data + 0x1000 * k } →
      ∀ y, step U y b = { a with
        data := a.data + 0x1000 * (k + 1)
        pc := if U (a.data + 0x1000 * (k + 1)) then .approve_allocate4
          else .adjust_then_call4 } := by
    intro k b hb y
    have hnext : a.data + 0x1000 * (k + 1) = a.data + 0x1000 * k + 0x1000 := by
      omega
    rw [hnext, hb]
    unfold Alloc.step
    simp only [hpc]
    rfl
  intro k
  induction k with
  | zero =>
      intro _
      have hzero : a = { a with data := a.data + 0x1000 * 0 } := rfl
      exact ⟨hzero, hround 0 a hzero _⟩
  | succ k ih =>
      intro hrej
      have hlast := (ih fun j h1 h2 => hrej j h1 (by omega)).2
      rw [if_neg (by rw [hrej (k + 1) (by omega) (Nat.le_refl _)]; decide),
        ← hpc] at hlast
      exact ⟨hlast, hround (k + 1) _ hlast _⟩

/-- A frame search, from `allocate4` on. -/
theorem search_from (hpc : a.pc = .allocate4) (hdata : 0x200000 < a.data)
    (k : Nat) (hrej : ∀ j, 1 ≤ j → j ≤ k → U (a.data + 0x1000 * j) = false) :
    Run.run (step U) z a (k + 1)
        = { a with data := a.data + 0x1000 * k, pc := .adjust_then_call4 }
      ∧ Run.run (step U) z a (k + 2)
        = { a with
            data := a.data + 0x1000 * (k + 1)
            pc := if U (a.data + 0x1000 * (k + 1)) then .approve_allocate4
              else .adjust_then_call4 } := by
  have hfirst : Run.run (step U) z a 1 = { a with pc := .adjust_then_call4 } := by
    show step U (z 0) a = _
    unfold Alloc.step
    rw [hpc]
    show a.chooseFrame = _
    unfold chooseFrame
    rw [if_neg (by omega)]
  have hrest : ∀ n, Run.run (step U) z a (n + 1) = Run.run (step U)
      (fun i => z (1 + i)) { a with pc := .adjust_then_call4 } n := by
    intro n
    rw [Nat.add_comm, Run.run_add, hfirst]
  rw [hrest k, hrest (k + 1)]
  exact search (a := { a with pc := .adjust_then_call4 }) rfl k hrej

end Alloc

/-- One state's frames are the next one's, except where one is stored. -/
theorem frames_step (zf : Bool) (hpc : s.pc ≠ .approve_allocate4) :
    (step L zf s).frames = s.frames := by
  by_cases hk : ∃ k, s.pc = .approve_allocate k
  · obtain ⟨k, hk⟩ := hk
    have hstep : step L zf s = approve_allocate k s := by
      unfold step
      rw [hk]
      cases k <;> rfl
    rw [hstep]
    rfl
  · exact (step_same L zf (fun k h => hk ⟨k, h⟩) hpc).2

theorem frames_stored (zf : Bool) (hpc : s.pc = .approve_allocate4) :
    (step L zf s).frames
      = s.frames ++ [(s.cpu.reg .r8, s.cpu.reg .rbx)] := by
  have hstep : step L zf s = approve_allocate4 s := by
    unfold step
    rw [hpc]
  rw [hstep]
  rfl

/-- The page in R8, from its number. -/
theorem r8_eq {t : Boot} (hs : Held m₀ s) (ht : Held m₀ t)
    (h : t.abs.page = s.abs.page) : t.cpu.reg .r8 = s.cpu.reg .r8 := by
  have h1 := hs.aligned
  have h2 := ht.aligned
  change (t.cpu.reg .r8).toNat / 0x1000 = (s.cpu.reg .r8).toNat / 0x1000 at h
  exact BitVec.eq_of_toNat_eq (by omega)

/-- A frame found on the way is the one taken. -/
theorem takes_of_place (h : Held m₀ s) (hb : Bounded s)
    (hpc : s.pc = .allocate4) (hrbx : 0x200000 < (s.cpu.reg .rbx).toNat)
    (hf : f.toNat < 2 ^ 63) {k : Nat}
    (hk : f.toNat = (s.cpu.reg .rbx).toNat + 0x1000 * (k + 1))
    (hacc : accepts m₀ f.toNat = true)
    (hrej : ∀ j, 1 ≤ j → j ≤ k →
      accepts m₀ ((s.cpu.reg .rbx).toNat + 0x1000 * j) = false) :
    Takes L s f := by
  intro z
  have hway := fun j (hj : j ≤ k) => Alloc.search_from (z := z)
    (a := s.abs) hpc hrbx j fun i h1 h2 => hrej i h1 (Nat.le_trans h2 hj)
  have hfound := (hway k (Nat.le_refl k)).2
  rw [show s.abs.data = (s.cpu.reg .rbx).toNat from rfl, ← hk, if_pos hacc]
    at hfound
  -- labels and pointers up to the store
  have hstate : ∀ m < k + 2,
      Run.run (Alloc.step (accepts m₀)) z s.abs m = s.abs
        ∨ ∃ j ≤ k, Run.run (Alloc.step (accepts m₀)) z s.abs m
          = { s.abs with
              data := s.abs.data + 0x1000 * j, pc := .adjust_then_call4 } := by
    intro m hm
    cases m with
    | zero => exact Or.inl rfl
    | succ m => exact Or.inr ⟨m, by omega, (hway m (by omega)).1⟩
  have hsmall : ∀ m < k + 3,
      (Run.run (Alloc.step (accepts m₀)) z s.abs m).data < 2 ^ 63
        ∧ (Run.run (Alloc.step (accepts m₀)) z s.abs m).ptr < 2 ^ 63 := by
    intro m hm
    rcases Nat.lt_or_ge m (k + 2) with hlt | hge
    · rcases hstate m hlt with heq | ⟨j, hj, heq⟩
      · rw [heq]
        exact hb
      · rw [heq]
        refine ⟨?_, hb.2⟩
        show (s.cpu.reg .rbx).toNat + 0x1000 * j < 2 ^ 63
        omega
    · obtain rfl : m = k + 2 := by omega
      rw [hfound]
      exact ⟨hf, hb.2⟩
  obtain ⟨hbound, hheld, -⟩ := h.run_of_alloc (L := L) z (k + 3) hsmall
  have hrun := fun m (hm : m ≤ k + 3) =>
    h.run (L := L) z m fun i hi => hbound i (by omega)
  have hframes : ∀ m ≤ k + 2,
      (Run.run (step L) z s m).frames = s.frames := by
    intro m
    induction m with
    | zero => exact fun _ => rfl
    | succ m ih =>
        intro hm
        have habs := (hrun m (by omega)).2
        have hne : (Run.run (step L) z s m).pc ≠ .approve_allocate4 := by
          show (Run.run (step L) z s m).abs.pc ≠ _
          rw [habs]
          rcases hstate m (by omega) with heq | ⟨j, -, heq⟩
          · rw [heq]
            show s.pc ≠ _
            rw [hpc]
            exact Label.noConfusion
          · rw [heq]
            exact Label.noConfusion
        exact (frames_step (z m) hne).trans (ih (by omega))
  obtain ⟨hheldn, habsn⟩ := hrun (k + 2) (by omega)
  rw [hfound] at habsn
  have hpage : (Run.run (step L) z s (k + 2)).abs.page = s.abs.page := by
    rw [habsn]
  have hr8 := r8_eq h hheldn hpage
  have hrbxn : (Run.run (step L) z s (k + 2)).cpu.reg .rbx = f :=
    BitVec.eq_of_toNat_eq (congrArg Alloc.data habsn)
  have hstored : (Run.run (step L) z s (k + 3)).frames
      = s.frames ++ [(s.cpu.reg .r8, f)] := by
    refine (frames_stored (z (k + 2)) (congrArg Alloc.pc habsn)).trans ?_
    rw [hr8, hrbxn, hframes (k + 2) (Nat.le_refl _)]
  refine ⟨k + 2, fun m hm => ⟨hbound m (by omega), hframes m hm⟩, hstored, ?_⟩
  have hget : (Run.run (step L) z s (k + 3)).frames[s.frames.length]?
      = some (s.cpu.reg .r8, f) := by
    rw [hstored, List.getElem?_append_right (Nat.le_refl _), Nat.sub_self]
    rfl
  obtain ⟨hslot, hread⟩ := hheld.leaf hget
  unfold leafOf
  rw [hslot, Option.map_some, hread]

/-- The frame taken is the first accepted one past RBX. -/
theorem place_of_takes (h : Held m₀ s) (hpc : s.pc = .allocate4)
    (hrbx : 0x200000 < (s.cpu.reg .rbx).toNat) (ht : Takes L s f) :
    ∃ k, f.toNat = (s.cpu.reg .rbx).toNat + 0x1000 * (k + 1)
      ∧ accepts m₀ f.toNat = true
      ∧ ∀ j, 1 ≤ j → j ≤ k →
        accepts m₀ ((s.cpu.reg .rbx).toNat + 0x1000 * j) = false := by
  obtain ⟨n, hsame, hstored, -⟩ := ht fun _ => false
  have hrun := fun m (hm : m ≤ n + 1) =>
    h.run (L := L) (fun _ => false) m fun i hi => (hsame i (by omega)).1
  have happ : (Run.run (step L) (fun _ => false) s n).pc
      = .approve_allocate4 := by
    by_contra hne
    have hlen := congrArg List.length
      (hstored.symm.trans ((frames_step false hne).trans
        (hsame n (Nat.le_refl n)).2))
    rw [List.length_append, List.length_singleton] at hlen
    omega
  -- the first address of the search to be accepted
  have hex : ∃ k, k < n ∧ accepts m₀
      ((s.cpu.reg .rbx).toNat + 0x1000 * (k + 1)) = true := by
    by_contra hnone
    have hlabel : (Run.run (Alloc.step (accepts m₀)) (fun _ => false) s.abs
        n).pc = .approve_allocate4 := by
      rw [← (hrun n (by omega)).2]
      exact happ
    cases n with
    | zero =>
        rw [show Run.run _ _ s.abs 0 = s.abs from rfl,
          show s.abs.pc = s.pc from rfl, hpc] at hlabel
        cases hlabel
    | succ n =>
        rw [(Alloc.search_from (a := s.abs) hpc hrbx n fun j h1 h2 => ?_).1]
          at hlabel
        · cases hlabel
        · rw [← Bool.not_eq_true]
          intro hyes
          refine hnone ⟨j - 1, by omega, ?_⟩
          rw [Nat.sub_add_cancel h1]
          exact hyes
  have ⟨hkn, hkacc⟩ := Nat.find_spec hex
  have hkmin : ∀ i < Nat.find hex, ¬ (i < n ∧ accepts m₀
      ((s.cpu.reg .rbx).toNat + 0x1000 * (i + 1)) = true) :=
    fun i hi => Nat.find_min hex hi
  generalize Nat.find hex = k at hkn hkacc hkmin
  have hrej : ∀ j, 1 ≤ j → j ≤ k →
      accepts m₀ ((s.cpu.reg .rbx).toNat + 0x1000 * j) = false := by
    intro j h1 h2
    rw [← Bool.not_eq_true]
    intro hyes
    refine hkmin (j - 1) (by omega) ⟨by omega, ?_⟩
    rw [Nat.sub_add_cancel h1]
    exact hyes
  have hway := fun j (hj : j ≤ k) =>
    Alloc.search_from (z := fun _ => false) (a := s.abs) hpc hrbx j
      fun i h1 h2 => hrej i h1 (Nat.le_trans h2 hj)
  have hfound := (hway k (Nat.le_refl k)).2
  rw [show s.abs.data = (s.cpu.reg .rbx).toNat from rfl, if_pos hkacc]
    at hfound
  -- the store comes right there
  have hn : n = k + 2 := by
    rcases Nat.lt_trichotomy n (k + 2) with hlt | heq | hgt
    · have hlabel := congrArg Alloc.pc (hrun n (by omega)).2
      rw [show (Run.run (step L) (fun _ => false) s n).abs.pc
        = .approve_allocate4 from happ] at hlabel
      obtain ⟨m, rfl⟩ : ∃ m, n = m + 1 := ⟨n - 1, by omega⟩
      rw [(hway m (by omega)).1] at hlabel
      cases hlabel
    · exact heq
    · have hlabel : (Run.run (step L) (fun _ => false) s (k + 2)).pc
          = .approve_allocate4 := by
        show (Run.run (step L) (fun _ => false) s (k + 2)).abs.pc = _
        rw [(hrun (k + 2) (by omega)).2, hfound]
      have hlen := congrArg List.length
        ((frames_stored false hlabel).symm.trans
          (hsame (k + 3) (by omega)).2)
      rw [List.length_append, List.length_singleton,
        (hsame (k + 2) (by omega)).2] at hlen
      omega
  subst hn
  have hpair := List.append_cancel_left ((hstored.symm.trans
    (frames_stored false happ)).trans
      (congrArg (· ++ _) (hsame (k + 2) (Nat.le_refl _)).2))
  have hfval : f = (Run.run (step L) (fun _ => false) s (k + 2)).cpu.reg .rbx :=
    congrArg Prod.snd (List.singleton_inj.1 hpair)
  have hdata := congrArg Alloc.data ((hrun (k + 2) (by omega)).2.trans hfound)
  refine ⟨k, ?_, ?_, hrej⟩
  · rw [hfval]
    exact hdata
  · rw [hfval]
    refine Eq.trans ?_ hkacc
    exact congrArg (accepts m₀) hdata

-- ======================================================= the lowest frame

/-- A step that comes to `allocate4` moves no pointer. -/
theorem Alloc.step_to_allocate4 {U : Nat → Bool} {zf : Bool} {a : Alloc}
    (h : (a.step U zf).pc = .allocate4) :
    (a.step U zf).ptr = a.ptr ∧ (a.step U zf).data = a.data := by
  unfold Alloc.step at h ⊢
  cases hpc : a.pc with
  | skip k =>
      cases k with
      | l1 => exact ⟨rfl, rfl⟩
      | l2 => exact ⟨rfl, rfl⟩
      | l3 => exact ⟨rfl, rfl⟩
  | allocate k =>
      cases k with
      | l1 => exact ⟨rfl, rfl⟩
      | l2 => exact ⟨rfl, rfl⟩
      | l3 => exact ⟨rfl, rfl⟩
  | adjust_then_call k =>
      rw [hpc] at h
      change (if U (a.ptr + 0x1000) = true then Label.approve_allocate k
        else .adjust_then_call k) = _ at h
      split at h
      · cases h
      · cases h
  | adjust_then_call4 =>
      rw [hpc] at h
      change (if U (a.data + 0x1000) = true then Label.approve_allocate4
        else .adjust_then_call4) = _ at h
      split at h
      · cases h
      · cases h
  | approve_allocate k =>
      rw [hpc] at h
      cases h
  | approve_allocate4 =>
      rw [hpc] at h
      cases h
  | page_walk => exact ⟨rfl, rfl⟩
  | allocate4 => exact ⟨rfl, rfl⟩
  | skip4 => exact ⟨rfl, rfl⟩
  | returned => exact ⟨rfl, rfl⟩
  | done => exact ⟨rfl, rfl⟩

/-- At `allocate4` the pointers are below 2^63. -/
theorem Reached.bounded (hs : StackOk c) (h : Reached L c s)
    (hpc : s.pc = .allocate4) : Bounded s := by
  cases h with
  | start => cases hpc
  | @step t zf hr hb =>
      have hok : StepOk c.mem L zf t := step_ok (Reached.held hs hr) hb
      have hlabel : (t.abs.step (accepts c.mem) zf).pc = .allocate4 := by
        rw [← hok.sim]
        exact hpc
      obtain ⟨hptr, hdata⟩ := Alloc.step_to_allocate4 hlabel
      rw [← hok.sim] at hptr hdata
      show (step L zf t).abs.data < _ ∧ (step L zf t).abs.ptr < _
      rw [hptr, hdata]
      exact hb

/-- The frame taken, among the accepted ones. -/
theorem takes_iff (h : Held m₀ s) (hb : Bounded s) (hpc : s.pc = .allocate4)
    (hrbx : 0x200000 < (s.cpu.reg .rbx).toNat) (hf : f.toNat < 2 ^ 63) :
    Takes L s f ↔ LowestFrame L s.cpu (s.cpu.reg .rbx + 0x1000#64) f := by
  have hal : (s.cpu.reg .rbx).toNat % 0x1000 = 0 := h.alloc.frames.aligned
  have hnext : (s.cpu.reg .rbx + 0x1000#64).toNat
      = (s.cpu.reg .rbx).toNat + 0x1000 := toNat_add_lit (by
    have := hb.1
    omega)
  constructor
  · intro ht
    obtain ⟨k, hk, hacc, hrej⟩ := place_of_takes h hpc hrbx ht
    refine ⟨by omega, by omega, (accepted_iff h).2 hacc, ?_⟩
    intro g hg hle hgacc
    by_contra hlt
    have hround : g.toNat = (s.cpu.reg .rbx).toNat
        + 0x1000 * ((g.toNat - (s.cpu.reg .rbx).toNat) / 0x1000) := by omega
    have hno := hrej ((g.toNat - (s.cpu.reg .rbx).toNat) / 0x1000)
      (by omega) (by omega)
    rw [← hround, (accepted_iff h).1 hgacc] at hno
    cases hno
  · rintro ⟨hfal, hle, hacc, hlow⟩
    have hround : f.toNat = (s.cpu.reg .rbx).toNat
        + 0x1000 * ((f.toNat - (s.cpu.reg .rbx).toNat) / 0x1000 - 1 + 1) := by
      omega
    refine takes_of_place h hb hpc hrbx hf hround ((accepted_iff h).1 hacc) ?_
    intro j h1 h2
    have hnum : (BitVec.ofNat 64 ((s.cpu.reg .rbx).toNat + 0x1000 * j)).toNat
        = (s.cpu.reg .rbx).toNat + 0x1000 * j := toNat_lit (by omega)
    rw [← Bool.not_eq_true, ← hnum]
    intro hyes
    have := hlow _ (by omega) (by omega) ((accepted_iff h).2 hyes)
    omega

/-- The lowest frame from the next page on is the lowest from RBX on where
RBX is not accepted. -/
theorem lowest_of_rejected (hal : (s.cpu.reg .rbx).toNat % 0x1000 = 0)
    (hroom : (s.cpu.reg .rbx).toNat < 2 ^ 63)
    (hrej : ¬ Accepted L s.cpu (s.cpu.reg .rbx)) :
    LowestFrame L s.cpu (s.cpu.reg .rbx + 0x1000#64) f
      ↔ LowestFrame L s.cpu (s.cpu.reg .rbx) f := by
  have hnext : (s.cpu.reg .rbx + 0x1000#64).toNat
      = (s.cpu.reg .rbx).toNat + 0x1000 := toNat_add_lit (by omega)
  have hpast : ∀ g : BitVec 64, g.toNat % 0x1000 = 0 →
      (s.cpu.reg .rbx).toNat ≤ g.toNat → Accepted L s.cpu g →
      (s.cpu.reg .rbx).toNat + 0x1000 ≤ g.toNat := by
    intro g h1 h2 h3
    have hne : g.toNat ≠ (s.cpu.reg .rbx).toNat := fun he =>
      hrej (BitVec.eq_of_toNat_eq he ▸ h3)
    omega
  constructor
  · rintro ⟨h1, h2, h3, h4⟩
    exact ⟨h1, by omega, h3, fun g hg hle hacc =>
      h4 g hg (by rw [hnext]; exact hpast g hg hle hacc) hacc⟩
  · rintro ⟨h1, h2, h3, h4⟩
    exact ⟨h1, by rw [hnext]; exact hpast f h1 h2 h3, h3,
      fun g hg hle hacc => h4 g hg (by omega) hacc⟩

/-- An accepted RBX is passed over. -/
theorem not_takesLowest (h : Held m₀ s) (hb : Bounded s)
    (hpc : s.pc = .allocate4) (hrbx : 0x200000 < (s.cpu.reg .rbx).toNat)
    (hacc : Accepted L s.cpu (s.cpu.reg .rbx)) : ¬ TakesLowest L s := by
  intro hall
  have hal : (s.cpu.reg .rbx).toNat % 0x1000 = 0 := h.alloc.frames.aligned
  have hlow : LowestFrame L s.cpu (s.cpu.reg .rbx) (s.cpu.reg .rbx) :=
    ⟨hal, Nat.le_refl _, hacc, fun _ _ hle _ => hle⟩
  have ht := ((takes_iff h hb hpc hrbx hb.1).1 ((hall _ hb.1).2 hlow)).from_on
  rw [toNat_add_lit (by have := hb.1; omega)] at ht
  omega

/-- The frame stored past 0x200000 is the lowest acceptable one exactly
where the page at RBX is not acceptable itself. -/
theorem takes_lowest_iff (hs : StackOk c) (hr : Reached L c s)
    (hpc : s.pc = .allocate4) (hrbx : 0x200000 < (s.cpu.reg .rbx).toNat) :
    TakesLowest L s ↔ ¬ Accepted L s.cpu (s.cpu.reg .rbx) := by
  have h := Reached.held hs hr
  have hb := hr.bounded hs hpc
  constructor
  · exact fun hall hacc => not_takesLowest h hb hpc hrbx hacc hall
  · intro hrej f hf
    rw [takes_iff h hb hpc hrbx hf]
    exact lowest_of_rejected h.alloc.frames.aligned hb.1 hrej

-- =============================================================== a sample

namespace Alloc

variable {U : Nat → Bool} {a : Alloc} {z : Nat → Bool}

/-- From the frame of page 512 to the `allocate4` of page 513. -/
theorem walk_513 (hpc : a.pc = .skip4) (hpage : a.page = 512) :
    Run.run (step U) z a 6 = { a with pc := .allocate4, page := 513 } := by
  obtain ⟨pc, page, ptr, data, tables, frames⟩ := a
  cases hpc
  cases hpage
  simp [Run.run, Alloc.step, Alloc.next, Alloc.enter, Alloc.needs,
    Level.span, pageCount]

/-- One step stores at most one frame, at `approve_allocate4`. -/
theorem frames_step (zf : Bool) : (a.step U zf).frames = a.frames
    ∨ (a.step U zf).pc = .skip4
      ∧ (a.step U zf).frames.length = a.frames.length + 1 := by
  unfold Alloc.step
  cases a.pc with
  | approve_allocate4 =>
      refine Or.inr ⟨rfl, ?_⟩
      show (a.frames ++ [_]).length = _
      rw [List.length_append, List.length_singleton]
  | allocate k =>
      cases k with
      | l1 => exact Or.inl rfl
      | l2 => exact Or.inl rfl
      | l3 => exact Or.inl rfl
  | skip k =>
      cases k with
      | l1 => exact Or.inl rfl
      | l2 => exact Or.inl rfl
      | l3 => exact Or.inl rfl
  | _ => exact Or.inl rfl

/-- A run that comes to its end passes the `allocate4` of page 513. -/
theorem passes_513 {z : Nat → Bool} {n : Nat}
    (hdone : (Run.run (step U) z init n).pc = .done) :
    ∃ m, (Run.run (step U) z init m).pc = .allocate4
      ∧ (Run.run (step U) z init m).page = 513 := by
  have hinv : ∀ m, Inv U (Run.run (step U) z init m) := fun m =>
    Run.Reaches.invariant inv_init (fun _ _ hi _ => hi.step)
      (Run.reaches_run (step U) z init m)
  have hex : ∃ m, 513 ≤ (Run.run (step U) z init m).frames.length := by
    refine ⟨n, ?_⟩
    rw [((hinv n).counts.done_length hdone).2]
    decide
  have hspec := Nat.find_spec hex
  have hmin := fun i hi => Nat.find_min (m := i) hex hi
  generalize Nat.find hex = m at hspec hmin
  cases m with
  | zero => exact absurd hspec (Nat.not_succ_le_zero 512)
  | succ m =>
      have hbefore := hmin m (Nat.lt_succ_self m)
      -- this step has stored the frame of page 512
      have hstored : (Run.run (step U) z init (m + 1)).pc = .skip4
          ∧ (Run.run (step U) z init (m + 1)).frames.length = 513 := by
        rcases frames_step (U := U) (z m)
          (a := Run.run (step U) z init m) with hsame | ⟨hpc, hlen⟩
        · have hlen := congrArg List.length hsame
          change (Run.run (step U) z init (m + 1)).frames.length = _ at hlen
          omega
        · change (Run.run (step U) z init (m + 1)).frames.length = _ at hlen
          exact ⟨hpc, by omega⟩
      have hpage := (hinv (m + 1)).counts.frames
      rw [hstored.1, hstored.2] at hpage
      have h512 : (Run.run (step U) z init (m + 1)).page = 512 := by
        change 513 = _ + 1 at hpage
        omega
      refine ⟨m + 1 + 6, ?_, ?_⟩
      · rw [Run.run_add, walk_513 hstored.1 h512]
      · rw [Run.run_add, walk_513 hstored.1 h512]

end Alloc

/-- On the wide map page 513 finds RBX at 0x201000. -/
theorem page_513_wideMap : ∃ s, Reached L (checkCpu wideMap 0#64) s
    ∧ s.pc = .allocate4 ∧ (s.cpu.reg .rbx).toNat = 0x201000 := by
  have hs := stackOk_checkCpu wideMap 0#64
  have hroom := fun m => room_bounded room_wideMap (by omega) (fun _ => false) m
  have hsim : ∀ n,
      Held (mapMem wideMap)
          (bigRun L (checkCpu wideMap 0#64) (fun _ => false) n)
        ∧ (bigRun L (checkCpu wideMap 0#64) (fun _ => false) n).abs
          = allocRun (mapMem wideMap) (fun _ => false) n :=
    fun n => run_sim hs (fun _ => false) n fun m _ => hroom m
  obtain ⟨n, hdone, -⟩ := done_wideMap (L := L) fun _ => false
  have habs : (allocRun (mapMem wideMap) (fun _ => false) n).pc = .done :=
    (congrArg Alloc.pc (hsim n).2).symm.trans hdone
  obtain ⟨m, hpc, hpage⟩ := Alloc.passes_513 habs
  obtain ⟨hheld, hm⟩ := hsim m
  have hpcm : (bigRun L (checkCpu wideMap 0#64) (fun _ => false) m).pc
      = .allocate4 := (congrArg Alloc.pc hm).trans hpc
  refine ⟨_, reached_bigRun hs (fun _ => false) m fun i _ => hroom i, hpcm, ?_⟩
  have hinv := hheld.alloc
  rw [hm] at hinv
  change (allocRun (mapMem wideMap) (fun _ => false) m).pc = _ at hpc
  change (allocRun (mapMem wideMap) (fun _ => false) m).page = _ at hpage
  generalize allocRun (mapMem wideMap) (fun _ => false) m = a
    at hm hinv hpc hpage
  have hlen : a.frames.length = 513 := by
    rw [hinv.counts.frames, hpage, hpc]
    rfl
  have hdata : a.data = 0x1000 * a.frames.length := by
    refine hinv.frames.early (Nat.le_of_eq hlen) ?_ ?_
    · simp [hpc]
    · simp [hpc]
  rw [hlen] at hdata
  exact (congrArg Alloc.data hm).trans hdata

theorem takes_lowest_iff_wideMap : ∃ s : Boot,
    Reached assembledLayout (checkCpu wideMap 0#64) s ∧ s.pc = .allocate4
      ∧ (s.cpu.reg .rbx).toNat = 0x201000
      ∧ (TakesLowest assembledLayout s
        ↔ ¬ Accepted assembledLayout s.cpu (s.cpu.reg .rbx)) := by
  obtain ⟨s, hr, hpc, hrbx⟩ := page_513_wideMap (L := assembledLayout)
  exact ⟨s, hr, hpc, hrbx,
    takes_lowest_iff (stackOk_checkCpu wideMap 0#64) hr hpc (by omega)⟩

/-- On 1 TiB of usable memory the frame 0x201000 is passed over. -/
theorem frame_passed_over : ¬ ∀ (L : Layout) (c : Cpu) (s : Boot),
    StackOk c → Reached L c s → s.pc = .allocate4 →
    0x200000 < (s.cpu.reg .rbx).toNat → TakesLowest L s := by
  intro hall
  have hs := stackOk_checkCpu wideMap 0#64
  obtain ⟨s, hr, hpc, hrbx⟩ := page_513_wideMap (L := assembledLayout)
  have h := Reached.held hs hr
  refine not_takesLowest (L := assembledLayout) h (hr.bounded hs hpc) hpc
    (by omega) ((accepted_iff h).2 ?_) (hall _ _ s hs hr hpc (by omega))
  rw [hrbx]
  exact accepts_wideMap (by omega)

end BootLoader.ThirdStage
