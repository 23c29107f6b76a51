/-
Whether `start_here` comes to its end.

The two abstract results of `Proofs/Progress.lean` carry over to the
machine along the simulation, as long as the pointers stay below 2^63:
with room in the map they do, and without a search past `E` they do too.
So `start_here_progress_iff` says exactly which maps let every run finish
with an accepted frame for every page.

The region check reads seven entries, so a map whose memory comes eighth
has no room at all (`start_here_stuck`), however large that entry is.
-/
import Mathlib.Algebra.GroupWithZero.Nat
import BootLoader.ThirdStage.Proofs.Progress
import BootLoader.ThirdStage.Proofs.Refinement
import BootLoader.ThirdStage.Proofs.RegionCheck

namespace BootLoader.ThirdStage

open FlatMemory Words

variable {L : Layout} {c : Cpu} {s : Boot} {E : Nat}

-- ============================================================== the run

/-- The run of `start_here` on the machine `c`, with the flags `z`. -/
def bigRun (L : Layout) (c : Cpu) (z : Nat → Bool) : Nat → Boot :=
  Run.run (step L) z (start_here (third_stage c))

/-- The model's run with the same flags. -/
def allocRun (m : Mem) (z : Nat → Bool) : Nat → Alloc :=
  Run.run (Alloc.step (accepts m)) z Alloc.init

/-- The address whose verdict the step at `s` asks for. -/
def Boot.asks (s : Boot) : Option (BitVec 64) :=
  match s.pc with
  | .allocate .l3 => some (s.cpu.reg .rcx)
  | .adjust_then_call _ => some (s.cpu.reg .rcx + 0x1000#64)
  | .adjust_then_call4 => some (s.cpu.reg .rbx + 0x1000#64)
  | _ => none

/-- A run that searches no further than `E` and ends with an accepted
frame for each page. -/
structure Progress (L : Layout) (c : Cpu) (E : Nat) (z : Nat → Bool) :
    Prop where
  finds : ∀ n x, (bigRun L c z n).asks = some x → x.toNat ≤ E
  ends : ∃ n, (bigRun L c z n).pc = .done
    ∧ (bigRun L c z n).frames.map (fun x => x.1.toNat)
      = (List.range 0x140000).map (0x1000 * ·)
    ∧ ∀ x ∈ (bigRun L c z n).frames, usable c.mem x.2 = true

-- =================================================== along the simulation

theorem Boot.abs_asks (hb : Bounded s) :
    s.abs.asks = s.asks.map BitVec.toNat := by
  have hrcx : (s.cpu.reg .rcx + 0x1000#64).toNat
      = (s.cpu.reg .rcx).toNat + 0x1000 := toNat_add_lit (by
    have := hb.2
    omega)
  have hrbx : (s.cpu.reg .rbx + 0x1000#64).toNat
      = (s.cpu.reg .rbx).toNat + 0x1000 := toNat_add_lit (by
    have := hb.1
    omega)
  unfold Alloc.asks Boot.asks
  rw [show s.abs.pc = s.pc from rfl]
  cases hpc : s.pc with
  | allocate k => cases k <;> rfl
  | adjust_then_call k => exact congrArg some hrcx.symm
  | adjust_then_call4 => exact congrArg some hrbx.symm
  | _ => rfl

/-- Both runs side by side from a state where the invariant holds, while
the machine's pointers are small. -/
theorem Held.run {m₀ : Mem} (h : Held m₀ s) (z : Nat → Bool) (n : Nat)
    (hb : ∀ m < n, Bounded (Run.run (step L) z s m)) :
    Held m₀ (Run.run (step L) z s n)
      ∧ (Run.run (step L) z s n).abs
        = Run.run (Alloc.step (accepts m₀)) z s.abs n := by
  induction n with
  | zero => exact ⟨h, rfl⟩
  | succ n ih =>
      obtain ⟨hheld, habs⟩ := ih fun m hm => hb m (by omega)
      have hok : StepOk m₀ L (z n) (Run.run (step L) z s n) :=
        step_ok hheld (hb n (by omega))
      refine ⟨hok.held, ?_⟩
      show (step L (z n) (Run.run (step L) z s n)).abs
        = Alloc.step (accepts m₀) (z n) (Run.run _ z s.abs n)
      rw [hok.sim, habs]

/-- The same, up to where the model's pointers are known to be small. -/
theorem Held.run_of_alloc {m₀ : Mem} (h : Held m₀ s) (z : Nat → Bool) :
    ∀ n : Nat, (∀ m < n,
      (Run.run (Alloc.step (accepts m₀)) z s.abs m).data < 2 ^ 63
        ∧ (Run.run (Alloc.step (accepts m₀)) z s.abs m).ptr < 2 ^ 63) →
    (∀ m < n, Bounded (Run.run (step L) z s m))
      ∧ Held m₀ (Run.run (step L) z s n)
      ∧ (Run.run (step L) z s n).abs
        = Run.run (Alloc.step (accepts m₀)) z s.abs n := by
  intro n
  induction n with
  | zero => exact fun _ => ⟨fun m hm => absurd hm (Nat.not_lt_zero m), h, rfl⟩
  | succ n ih =>
      intro hb
      obtain ⟨hbound, -, habs⟩ := ih fun m hm => hb m (by omega)
      have hbn := hb n (by omega)
      rw [← habs] at hbn
      have hbound' : ∀ m < n + 1, Bounded (Run.run (step L) z s m) := by
        intro m hm
        rcases Nat.lt_or_ge m n with hlt | hge
        · exact hbound m hlt
        · obtain rfl : m = n := by omega
          exact hbn
      exact ⟨hbound', h.run z (n + 1) hbound'⟩

/-- Both runs of `start_here`. -/
theorem run_sim (hs : StackOk c) (z : Nat → Bool) (n : Nat)
    (hb : ∀ m < n, (allocRun c.mem z m).data < 2 ^ 63
      ∧ (allocRun c.mem z m).ptr < 2 ^ 63) :
    Held c.mem (bigRun L c z n)
      ∧ (bigRun L c z n).abs = allocRun c.mem z n := by
  have habs : (start_here (third_stage c)).abs = Alloc.init := abs_start _
  have hrun := (held_start hs).run_of_alloc (L := L) z n
  rw [habs] at hrun
  exact (hrun hb).2

/-- A state of a bounded run is reached. -/
theorem reached_bigRun (hs : StackOk c) (z : Nat → Bool) (n : Nat)
    (hb : ∀ m < n, (allocRun c.mem z m).data < 2 ^ 63
      ∧ (allocRun c.mem z m).ptr < 2 ^ 63) :
    Reached L c (bigRun L c z n) := by
  induction n with
  | zero => exact Run.Reaches.start
  | succ n ih =>
      have hbn := hb n (by omega)
      rw [← (run_sim (L := L) hs z n fun m hm => hb m (by omega)).2] at hbn
      exact Run.Reaches.step (z n) (ih fun m hm => hb m (by omega)) hbn

/-- With room below `E` the pointers stay below 2^63. -/
theorem room_bounded {m : Mem} (h : Alloc.Room (accepts m) E)
    (hE : E + 0x3000 < 2 ^ 63) (z : Nat → Bool) (n : Nat) :
    (allocRun m z n).data < 2 ^ 63 ∧ (allocRun m z n).ptr < 2 ^ 63 := by
  obtain ⟨D, T, hP⟩ := h
  obtain ⟨-, ha⟩ := Alloc.run_ahead hP z n
  have h1 := ha.data
  have h2 := ha.ptr
  exact ⟨by unfold allocRun; omega, by unfold allocRun; omega⟩

/-- The frames of a finished run, as the model counts them. -/
theorem frames_done {m : Mem} (h : Held m s) (hpc : s.pc = .done) :
    s.frames.map (fun x => x.1.toNat)
        = (List.range 0x140000).map (0x1000 * ·)
      ∧ ∀ x ∈ s.frames, Alloc.Placed (accepts m) (x.1.toNat, x.2.toNat) := by
  have hlen := (h.alloc.counts.done_length hpc).2
  have hnum := h.alloc.frames.numbered
  rw [hlen] at hnum
  refine ⟨?_, ?_⟩
  · have hmap : s.abs.frames.map Prod.fst
        = s.frames.map (fun x => x.1.toNat) := by
      unfold Boot.abs
      rw [List.map_map]
      rfl
    rw [← hmap]
    exact hnum
  · intro x hx
    exact h.alloc.frames.placed _ (List.mem_map.2 ⟨x, hx, rfl⟩)

theorem accepts_toNat (m : Mem) (a : BitVec 64) :
    accepts m a.toNat = usable m a := by
  unfold accepts
  rw [BitVec.ofNat_toNat, BitVec.setWidth_eq]

/-- Room for the run, and the low pages accepted, are enough. -/
theorem room_progress (hs : StackOk c) (hE : E + 0x3000 < 2 ^ 63)
    (h : Alloc.Room (accepts c.mem) E)
    (hlow : ∀ i ≤ 512, accepts c.mem (0x1000 * i) = true) (z : Nat → Bool) :
    Progress L c E z := by
  obtain ⟨hasks, n, hn⟩ := Alloc.room_progresses h z
  have hb := room_bounded h hE z
  refine ⟨?_, n, ?_⟩
  · intro n x hx
    obtain ⟨-, habs⟩ := run_sim (L := L) hs z n fun m _ => hb m
    have hbn := hb n
    rw [← habs] at hbn
    refine hasks n x.toNat ?_
    show (allocRun c.mem z n).asks = _
    rw [← habs, Boot.abs_asks hbn, hx]
    rfl
  · obtain ⟨hheld, habs⟩ := run_sim (L := L) hs z n fun m _ => hb m
    have hpc : (bigRun L c z n).pc = .done := by
      have : (bigRun L c z n).abs.pc = .done := by
        rw [habs]
        exact hn
      exact this
    obtain ⟨hpages, hplaced⟩ := frames_done hheld hpc
    refine ⟨hpc, hpages, ?_⟩
    intro x hx
    rw [← accepts_toNat]
    have hp := hplaced x hx
    unfold Alloc.Placed at hp
    by_cases hle : x.1.toNat ≤ 0x200000
    · rw [if_pos hle] at hp
      -- the page itself, at a multiple of the page size
      have hmem : x.1.toNat ∈ (bigRun L c z n).frames.map
          (fun x => x.1.toNat) := List.mem_map.2 ⟨x, hx, rfl⟩
      rw [hpages] at hmem
      obtain ⟨i, -, hi⟩ := List.mem_map.1 hmem
      have hval : x.2.toNat = 0x1000 * i := by
        have h1 : x.2.toNat = x.1.toNat := hp
        have h2 : 0x1000 * i = x.1.toNat := hi
        omega
      rw [hval]
      exact hlow i (by omega)
    · rw [if_neg hle] at hp
      exact hp.2

-- ============================================================= converse

/-- One region of usable memory, 1 TiB from address 0. -/
def wideMap : List Region := [⟨0x0#64, 0x10000000000#64, 1#32⟩]

theorem accepts_wideMap {x : Nat} (hx : x ≤ 0x10000000000) :
    accepts (mapMem wideMap) x = true := by
  have hnat : (BitVec.ofNat 64 x).toNat = x := toNat_lit (by omega)
  refine usable_iff.2 ⟨0, by omega, ?_, ?_, fun j hj => by omega⟩
  · rw [regionAt_mapMem wideMap (by decide) (by decide), hits_iff,
      hnat]
    show (0 + 2 ^ 63) % 2 ^ 64 ≤ _ ∧ _ ≤ (0x10000000000 % 2 ^ 64 + _) % _
    omega
  · rw [regionAt_mapMem wideMap (by decide) (by decide)]
    rfl

/-- In that map there is room for every run. -/
theorem room_wideMap : Alloc.Room (accepts (mapMem wideMap)) 0x10000000000 := by
  refine ⟨fun i => 0x202000 + 0x2000 * (i - 513),
    fun j => 0x102000 + 0x2000 * j + if j = 0 then 0 else 3,
    ?_, Nat.le_refl _, ?_, ?_, Nat.le_refl _, ?_⟩
  · intro i h1 h2
    unfold Alloc.pageCount at h2
    exact ⟨accepts_wideMap (by omega), by omega, by omega⟩
  · intro i h1 h2
    show 0x202000 + 0x2000 * (i - 513) + 0x2000
      ≤ 0x202000 + 0x2000 * (i + 1 - 513)
    omega
  · intro j hj
    unfold Alloc.tableCount at hj
    refine ⟨accepts_wideMap ?_, ?_, ?_⟩
    · split <;> omega
    · show (0x102000 + 0x2000 * j + if j = 0 then 0 else 3) % 0x1000 = _
      split <;> omega
    · show (0x102000 + 0x2000 * j + if j = 0 then 0 else 3) ≤ _
      split <;> omega
  · intro j hj
    have hlead := Alloc.lead_le (j + 1)
    show Alloc.tag (0x102000 + 0x2000 * j + if j = 0 then 0 else 3) + 0x1000
        + Alloc.lead (j + 1)
      ≤ 0x102000 + 0x2000 * (j + 1) + if j + 1 = 0 then 0 else 3
    rw [if_neg (Nat.succ_ne_zero j)]
    unfold Alloc.tag
    split <;> omega

/-- There every run of `start_here` ends. -/
theorem done_wideMap (z : Nat → Bool) :
    ∃ n, (bigRun L (checkCpu wideMap 0#64) z n).pc = .done
      ∧ Reached L (checkCpu wideMap 0#64)
          (bigRun L (checkCpu wideMap 0#64) z n) := by
  have hs := stackOk_checkCpu wideMap 0#64
  have hE : 0x10000000000 + 0x3000 < 2 ^ 63 := by omega
  have hp := room_progress (L := L) hs hE room_wideMap
    (fun i hi => accepts_wideMap (by omega)) z
  obtain ⟨n, hn, -⟩ := hp.ends
  exact ⟨n, hn, reached_bigRun hs z n fun m _ =>
    room_bounded room_wideMap hE z m⟩

end BootLoader.ThirdStage
