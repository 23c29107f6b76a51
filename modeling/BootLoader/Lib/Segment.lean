/-
Segmented memory: a physical memory seen through 64 KiB segments, the way
16-bit code sees it.

# The ring and the line

The byte at `s:o` is the physical byte `16 s + o`, and offsets wrap, so a
segment is a ring of 65536 bytes. `fill` and `load` follow the ring. What
a caller proves goes through one of two views:

- by distance from an offset, for a stack, which may lie anywhere on the
  ring (`Under`, `Holds`);
- by physical address, for tables that do not wrap: there a store is a
  flat write and a load is a flat read (`store_eq_write`,
  `load_eq_read`).
-/
import BootLoader.Lib.Memory

namespace Segment

open FlatMemory

-- ========================================================== addresses

/-- The physical address of `s:o`. -/
def linear (s o : BitVec 16) : BitVec 64 :=
  BitVec.ofNat 64 (16 * s.toNat + o.toNat)

theorem linear_toNat (s o : BitVec 16) :
    (linear s o).toNat = 16 * s.toNat + o.toNat := by
  unfold linear
  rw [BitVec.toNat_ofNat]
  omega

theorem linear_inj {s o o' : BitVec 16} (h : linear s o = linear s o') :
    o = o' := by
  have hn := congrArg BitVec.toNat h
  rw [linear_toNat, linear_toNat] at hn
  exact BitVec.eq_of_toNat_eq (by omega)

theorem linear_add {s o : BitVec 16} {k : Nat} (h : o.toNat + k < 65536) :
    linear s (o + BitVec.ofNat 16 k) = linear s o + BitVec.ofNat 64 k := by
  apply BitVec.eq_of_toNat_eq
  rw [linear_toNat, BitVec.toNat_add, BitVec.toNat_add, linear_toNat,
    BitVec.toNat_ofNat, BitVec.toNat_ofNat]
  omega

/-- Distances from an offset are told apart below 65536. -/
theorem off_inj {o : BitVec 16} {j k : Nat} (hj : j < 65536) (hk : k < 65536)
    (h : o + BitVec.ofNat 16 j = o + BitVec.ofNat 16 k) : j = k := by
  have hn := congrArg BitVec.toNat h
  simp only [BitVec.toNat_add, BitVec.toNat_ofNat] at hn
  omega

-- ============================================================= writing

variable {m m' m'' : Mem} {s o p : BitVec 16} {b : BitVec 64} {n k : Nat}

/-- The `n` bytes from `s:o` upwards become `f 0`, `f 1`, ... -/
def fill (m : Mem) (s o : BitVec 16) (n : Nat) (f : Nat → BitVec 8) : Mem :=
  fun b =>
    let d := BitVec.ofNat 16 (b.toNat - 16 * s.toNat) - o
    if b = linear s (o + d) ∧ d.toNat < n then f d.toNat else m b

/-- Store the low `n` bytes of `v` at `s:o`, lowest byte first. -/
def store (m : Mem) (s o : BitVec 16) (n : Nat) (v : BitVec (8 * n)) : Mem :=
  fill m s o n fun k => v.extractLsb' (8 * k) 8

/-- The offset a physical address has in the segment, if any. -/
theorem offset_of_linear (s o : BitVec 16) :
    BitVec.ofNat 16 ((linear s o).toNat - 16 * s.toNat) = o := by
  apply BitVec.eq_of_toNat_eq
  rw [linear_toNat, BitVec.toNat_ofNat]
  omega

/-- The byte `k` places into a filled range. -/
theorem fill_at (m : Mem) (s o : BitVec 16) (f : Nat → BitVec 8)
    (hk : k < n) (hn : n ≤ 65536) :
    fill m s o n f (linear s (o + BitVec.ofNat 16 k)) = f k := by
  have hd : o + BitVec.ofNat 16 k - o = BitVec.ofNat 16 k := by
    rw [BitVec.add_comm, BitVec.add_sub_cancel]
  have hk' : (BitVec.ofNat 16 k).toNat = k := by
    rw [BitVec.toNat_ofNat]
    omega
  simp only [fill, offset_of_linear, hd, hk']
  exact if_pos ⟨trivial, hk⟩

/-- The bytes outside a filled range. -/
theorem fill_out (m : Mem) (f : Nat → BitVec 8)
    (h : ∀ k < n, b ≠ linear s (o + BitVec.ofNat 16 k)) :
    fill m s o n f b = m b := by
  refine if_neg fun hin => h _ hin.2 ?_
  rw [BitVec.ofNat_toNat, BitVec.setWidth_eq]
  exact hin.1

/-- A byte of the same segment, by its distance. -/
theorem fill_far (m : Mem) (s o p : BitVec 16) (f : Nat → BitVec 8)
    (h : n ≤ (p - o).toNat) : fill m s o n f (linear s p) = m (linear s p) := by
  refine fill_out m f fun k hk heq => ?_
  have hp := linear_inj heq
  have hd : (p - o).toNat = k % 65536 := by
    rw [hp, BitVec.add_comm, BitVec.add_sub_cancel, BitVec.toNat_ofNat]
  have hle := Nat.mod_le k 65536
  omega

/-- The physical range a fill touches. -/
theorem fill_apart (m : Mem) (f : Nat → BitVec 8)
    (hn : o.toNat + n ≤ 65536)
    (h : b.toNat < 16 * s.toNat + o.toNat
      ∨ 16 * s.toNat + o.toNat + n ≤ b.toNat) :
    fill m s o n f b = m b := by
  refine fill_out m f fun k hk heq => ?_
  have hb := congrArg BitVec.toNat heq
  rw [linear_add (by omega), BitVec.toNat_add, linear_toNat,
    BitVec.toNat_ofNat] at hb
  omega

/-- A segment's bytes, by physical address. -/
theorem fill_outside (m : Mem) (s o : BitVec 16) (n : Nat)
    (f : Nat → BitVec 8)
    (h : b.toNat < 16 * s.toNat ∨ 16 * s.toNat + 65536 ≤ b.toNat) :
    fill m s o n f b = m b := by
  refine fill_out m f fun k hk heq => ?_
  have hb := congrArg BitVec.toNat heq
  have hlt := (o + BitVec.ofNat 16 k).isLt
  rw [linear_toNat] at hb
  omega

/-- A filled byte, from the byte before. -/
theorem fill_congr (f : Nat → BitVec 8) (h : m' b = m b) :
    fill m' s o n f b = fill m s o n f b := by
  simp only [fill, h]

-- ============================================================= reading

/-- The segment as a flat memory that repeats every 65536 bytes. -/
def view (m : Mem) (s : BitVec 16) : Mem := fun a => m (linear s (a.setWidth 16))

/-- The `n` bytes from `s:o` upwards as one little-endian number. -/
def load (m : Mem) (s o : BitVec 16) (n : Nat) : BitVec (8 * n) :=
  (view m s).read (o.setWidth 64) n

theorem view_add (m : Mem) (s o : BitVec 16) (k : Nat) :
    view m s (o.setWidth 64 + BitVec.ofNat 64 k)
      = m (linear s (o + BitVec.ofNat 16 k)) := by
  unfold view
  congr 2
  apply BitVec.eq_of_toNat_eq
  simp only [BitVec.toNat_setWidth, BitVec.toNat_add, BitVec.toNat_ofNat]
  omega

/-- A load depends only on the bytes it covers. -/
theorem load_congr
    (h : ∀ k < n, m' (linear s (o + BitVec.ofNat 16 k))
      = m (linear s (o + BitVec.ofNat 16 k))) :
    load m' s o n = load m s o n := by
  refine Mem.read_congr fun k hk => ?_
  rw [view_add, view_add]
  exact h k hk

/-- What a fill leaves is loaded as the number with those bytes. -/
theorem load_eq {v : BitVec (8 * n)}
    (h : ∀ k < n, m (linear s (o + BitVec.ofNat 16 k))
      = v.extractLsb' (8 * k) 8) : load m s o n = v := by
  apply BitVec.eq_of_getLsbD_eq
  intro i hi
  unfold load
  rw [Mem.getLsbD_read _ n _ i hi, view_add, h (i / 8) (by omega),
    BitVec.getLsbD_extractLsb']
  have hi8 : i % 8 < 8 := by omega
  have hsum : 8 * (i / 8) + i % 8 = i := by omega
  simp [hi8, hsum]

/-- What was stored is loaded back. -/
theorem load_store_self (m : Mem) (s o : BitVec 16) (v : BitVec (8 * n))
    (hn : n ≤ 65536) : load (store m s o n v) s o n = v :=
  load_eq fun _ hk => fill_at m s o _ hk hn

/-- Loads of the same segment clear of a store, by distance. -/
theorem load_store_far (m : Mem) (s o p : BitVec 16) (v : BitVec (8 * n))
    (h : n ≤ (p - o).toNat) (hk : (p - o).toNat + k ≤ 65536) :
    load (store m s o n v) s p k = load m s p k := by
  refine load_congr fun i hi => fill_far m s o _ _ ?_
  have hd : (p + BitVec.ofNat 16 i - o).toNat = (p - o).toNat + i := by
    simp only [BitVec.toNat_sub, BitVec.toNat_add, BitVec.toNat_ofNat] at *
    omega
  omega

/-- Part of a load. -/
theorem load_part (m : Mem) (s o : BitVec 16) {n j k : Nat} (h : j + k ≤ n) :
    load m s (o + BitVec.ofNat 16 j) k
      = (load m s o n).extractLsb' (8 * j) (8 * k) := by
  apply BitVec.eq_of_getLsbD_eq
  intro i hi
  rw [BitVec.getLsbD_extractLsb']
  unfold load
  rw [Mem.getLsbD_read _ k _ i hi, Mem.getLsbD_read _ n _ (8 * j + i) (by omega),
    view_add, view_add]
  have hdiv : (8 * j + i) / 8 = j + i / 8 := by omega
  have hmod : (8 * j + i) % 8 = i % 8 := by omega
  rw [hdiv, hmod, BitVec.add_assoc, ← BitVec.ofNat_add]
  simp [hi]

-- ========================================================= the flat view

/-- A load that does not wrap is a flat read. -/
theorem load_eq_read (m : Mem) (s o : BitVec 16) {n : Nat}
    (hn : o.toNat + n ≤ 65536) : load m s o n = m.read (linear s o) n := by
  apply BitVec.eq_of_getLsbD_eq
  intro i hi
  unfold load
  rw [Mem.getLsbD_read _ n _ i hi, Mem.getLsbD_read _ n _ i hi, view_add,
    linear_add (by omega)]

/-- A store that does not wrap is a flat write. -/
theorem store_eq_write (m : Mem) (s o : BitVec 16) {n : Nat}
    (v : BitVec (8 * n)) (hn : o.toNat + n ≤ 65536) :
    store m s o n v = m.write (linear s o) n v := by
  funext b
  have hfirst := linear_toNat s o
  by_cases hb : 16 * s.toNat + o.toNat ≤ b.toNat
      ∧ b.toNat < 16 * s.toNat + o.toNat + n
  · have hk : b = linear s (o
        + BitVec.ofNat 16 (b.toNat - (16 * s.toNat + o.toNat))) := by
      rw [linear_add (by omega)]
      apply BitVec.eq_of_toNat_eq
      rw [BitVec.toNat_add, hfirst, BitVec.toNat_ofNat]
      omega
    rw [hk]
    refine (fill_at m s o _ (by omega) (by omega)).trans ?_
    rw [linear_add (by omega)]
    exact (Mem.write_apply_add m _ v (by omega) (by omega)).symm
  · have hout : b.toNat < 16 * s.toNat + o.toNat
        ∨ 16 * s.toNat + o.toNat + n ≤ b.toNat := by omega
    rw [Mem.write_apply_of_out m v (by omega) (by omega)]
    exact fill_apart m _ hn hout

-- =============================================================== a stack

/-- `b` is one of the `n` bytes below `s:p`. -/
def Under (s p : BitVec 16) (n : Nat) (b : BitVec 64) : Prop :=
  ∃ o : BitVec 16, b = linear s o ∧ (p - 1#16 - o).toNat < n

theorem Under.mono (h : Under s p n b) (hn : n ≤ k) : Under s p k b := by
  obtain ⟨o, hb, ho⟩ := h
  exact ⟨o, hb, Nat.lt_of_lt_of_le ho hn⟩

/-- What lies under a lower stack pointer, seen from the higher one. -/
theorem Under.of_sub {j : Nat} (h : Under s (p - BitVec.ofNat 16 j) n b) :
    Under s p (n + j) b := by
  obtain ⟨o, hb, ho⟩ := h
  refine ⟨o, hb, ?_⟩
  have hd : p - 1#16 - o
      = p - BitVec.ofNat 16 j - 1#16 - o + BitVec.ofNat 16 j := by
    apply BitVec.eq_of_toNat_eq
    simp only [BitVec.toNat_sub, BitVec.toNat_add, BitVec.toNat_ofNat]
    omega
  rw [hd, BitVec.toNat_add, BitVec.toNat_ofNat]
  have hmod := Nat.mod_le j (2 ^ 16)
  exact Nat.lt_of_le_of_lt (Nat.mod_le _ _) (by omega)

/-- What lies under a stack pointer, seen from a higher one. -/
theorem Under.of_add {j : Nat} (h : Under s p n b) :
    Under s (p + BitVec.ofNat 16 j) (n + j) b := by
  refine Under.of_sub ?_
  rwa [BitVec.add_sub_cancel]

/-- The bytes from the stack pointer upwards are not under it. -/
theorem not_under (hk : k + n < 65536) :
    ¬ Under s p n (linear s (p + BitVec.ofNat 16 k)) := by
  rintro ⟨o, hb, ho⟩
  rw [← linear_inj hb] at ho
  have hd : (p - 1#16 - (p + BitVec.ofNat 16 k)).toNat = 65535 - k := by
    simp only [BitVec.toNat_sub, BitVec.toNat_add, BitVec.toNat_ofNat]
    omega
  omega

/-- The bytes a lower stack pointer has above it are under the higher
one. -/
theorem under_add {j : Nat} (hk : k < j) :
    Under s p j (linear s (p - BitVec.ofNat 16 j + BitVec.ofNat 16 k)) := by
  refine ⟨_, rfl, ?_⟩
  simp only [BitVec.toNat_sub, BitVec.toNat_add, BitVec.toNat_ofNat]
  omega

/-- The bytes under a stack pointer that does not wrap. -/
theorem under_iff (h : n ≤ p.toNat) :
    Under s p n b ↔ 16 * s.toNat + p.toNat - n ≤ b.toNat
      ∧ b.toNat < 16 * s.toNat + p.toNat := by
  constructor
  · rintro ⟨o, rfl, ho⟩
    rw [linear_toNat]
    simp only [BitVec.toNat_sub, BitVec.toNat_ofNat] at ho
    omega
  · rintro ⟨h1, h2⟩
    have ho : (BitVec.ofNat 16 (b.toNat - 16 * s.toNat)).toNat
        = b.toNat - 16 * s.toNat := by
      rw [BitVec.toNat_ofNat]
      omega
    refine ⟨BitVec.ofNat 16 (b.toNat - 16 * s.toNat), ?_, ?_⟩
    · apply BitVec.eq_of_toNat_eq
      rw [linear_toNat, ho]
      omega
    · rw [BitVec.toNat_sub, BitVec.toNat_sub, ho, BitVec.toNat_ofNat]
      omega

/-- A push writes under the stack pointer only. -/
theorem store_push (m : Mem) (v : BitVec 16) (h : ¬ Under s p 2 b) :
    store m s (p - 2#16) 2 v b = m b := by
  refine fill_out m _ fun k hk heq => h ?_
  rw [heq]
  exact under_add hk

/-- The words from `s:p` upwards. -/
def Holds (m : Mem) (s : BitVec 16) : BitVec 16 → List (BitVec 16) → Prop
  | _, [] => True
  | p, v :: vs => load m s p 2 = v ∧ Holds m s (p + 2#16) vs

/-- The contents depend only on the bytes they occupy. -/
theorem Holds.congr {vs : List (BitVec 16)} (h : Holds m s p vs)
    (hs : ∀ k < 2 * vs.length, m' (linear s (p + BitVec.ofNat 16 k))
      = m (linear s (p + BitVec.ofNat 16 k))) : Holds m' s p vs := by
  induction vs generalizing p with
  | nil => trivial
  | cons v vs ih =>
      rw [List.length_cons] at hs
      obtain ⟨hv, hvs⟩ := h
      refine ⟨(load_congr fun k hk => hs k (by omega)).trans hv, ih hvs ?_⟩
      intro k hk
      have hstep : p + 2#16 + BitVec.ofNat 16 k
          = p + BitVec.ofNat 16 (k + 2) := by
        apply BitVec.eq_of_toNat_eq
        simp only [BitVec.toNat_add, BitVec.toNat_ofNat]
        omega
      rw [hstep]
      exact hs (k + 2) (by omega)

/-- A push is a cons. -/
theorem Holds.push {vs : List (BitVec 16)} (h : Holds m s p vs)
    (hlen : 2 * vs.length + 2 < 65536) (v : BitVec 16) :
    Holds (store m s (p - 2#16) 2 v) s (p - 2#16) (v :: vs) := by
  refine ⟨load_store_self (n := 2) m s _ v (by omega), ?_⟩
  rw [BitVec.sub_add_cancel]
  refine h.congr fun k hk => store_push m v ?_
  exact not_under (by omega)

end Segment
