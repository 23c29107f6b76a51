/-
A record in memory, written field by field.

A field is a place in the record and the bytes that belong there. A store
into one field (`Put`) leaves every other, so the fields written so far
(`Laid`) stay written while the rest of the record is filled in, in
whatever order.
-/
import BootLoader.Lib.Memory
import BootLoader.Lib.Words

namespace FlatMemory

open Mem Words

-- ================================================================ the fields

/-- A field: its offset, its length and its bytes. -/
structure Field where
  off : Nat
  len : Nat
  byte : Nat → BitVec 8

namespace Field

variable {x : BitVec 64} {m m' : Mem} {f g : Field} {fs : List Field}
  {o n : Nat}

/-- The low `n` bytes of a number, the lowest first. -/
def number (off n : Nat) (v : BitVec (8 * n)) : Field :=
  ⟨off, n, fun k => v.extractLsb' (8 * k) 8⟩

/-- The bytes that stand from `src` on. -/
def copy (off n : Nat) (m : Mem) (src : BitVec 64) : Field :=
  ⟨off, n, fun k => m (src + BitVec.ofNat 64 k)⟩

/-- The record at `x` holds the field. -/
def At (x : BitVec 64) (m : Mem) (f : Field) : Prop :=
  ∀ k < f.len, m (x + BitVec.ofNat 64 (f.off + k)) = f.byte k

/-- Two fields share no byte. -/
def Apart (f g : Field) : Prop :=
  f.off + f.len ≤ g.off ∨ g.off + g.len ≤ f.off

/-- Memory after the field was written, and nothing else. -/
structure Put (x : BitVec 64) (f : Field) (m m' : Mem) : Prop where
  put : f.At x m'
  out : ∀ a : BitVec 64, a.toNat < x.toNat + f.off
    ∨ x.toNat + f.off + f.len ≤ a.toNat → m' a = m a

/-- A store into the record. -/
theorem put_write (m : Mem) (v : BitVec (8 * n))
    (hend : x.toNat + o + n < 2 ^ 64) :
    Put x (number o n v) m (m.write (x + BitVec.ofNat 64 o) n v) := by
  have haddr : (x + BitVec.ofNat 64 o).toNat = x.toNat + o :=
    toNat_add_lit (by omega)
  refine ⟨?_, ?_⟩
  · intro k hk
    have hk' : k < n := hk
    show m.write _ n v (x + BitVec.ofNat 64 (o + k)) = _
    rw [BitVec.ofNat_add, ← BitVec.add_assoc]
    exact write_apply_add m _ v hk' (by omega)
  · intro a ha
    exact write_apply_of_out m v (by omega) (by rw [haddr]; exact ha)

/-- A field that was not written keeps its bytes. -/
theorem At.keep (hg : g.At x m) (hput : Put x f m m') (hapart : f.Apart g)
    (hend : x.toNat + g.off + g.len ≤ 2 ^ 64) : g.At x m' := by
  intro k hk
  have haddr : (x + BitVec.ofNat 64 (g.off + k)).toNat
      = x.toNat + (g.off + k) := toNat_add_lit (by omega)
  rw [hput.out _ ?_]
  · exact hg k hk
  · unfold Apart at hapart
    omega

/-- The record in a memory that agrees on its bytes. -/
theorem At.congr (hg : g.At x m)
    (h : ∀ k < g.len, m' (x + BitVec.ofNat 64 (g.off + k))
      = m (x + BitVec.ofNat 64 (g.off + k))) : g.At x m' :=
  fun k hk => (h k hk).trans (hg k hk)

/-- A number written is read back. -/
theorem At.read {v : BitVec (8 * n)} (h : (number o n v).At x m) :
    m.read (x + BitVec.ofNat 64 o) n = v := by
  apply BitVec.eq_of_getLsbD_eq
  intro i hi
  have hbyte := h (i / 8) (show i / 8 < n by omega)
  have hsum : 8 * (i / 8) + i % 8 = i := by omega
  have hi8 : i % 8 < 8 := by omega
  have haddr : x + BitVec.ofNat 64 o + BitVec.ofNat 64 (i / 8)
      = x + BitVec.ofNat 64 (o + i / 8) := by
    rw [BitVec.add_assoc, ← BitVec.ofNat_add]
  rw [getLsbD_read m n _ i hi, haddr]
  refine (congrArg (fun b : BitVec 8 => b.getLsbD (i % 8)) hbyte).trans ?_
  show (v.extractLsb' (8 * (i / 8)) 8).getLsbD (i % 8) = _
  rw [BitVec.getLsbD_extractLsb', hsum, decide_eq_true hi8, Bool.true_and]

-- ============================================================ several fields

/-- All of the fields stand in the record at `x`. -/
def Laid (x : BitVec 64) (m : Mem) (fs : List Field) : Prop :=
  ∀ f ∈ fs, f.At x m

theorem laid_nil : Laid x m [] := fun _ hf => absurd hf List.not_mem_nil

/-- One field more. -/
theorem Laid.put (h : Laid x m fs) (hput : Put x f m m')
    (hapart : ∀ g ∈ fs, f.Apart g)
    (hend : ∀ g ∈ fs, x.toNat + g.off + g.len ≤ 2 ^ 64) :
    Laid x m' (f :: fs) := by
  intro g hg
  rcases List.mem_cons.1 hg with rfl | hg
  · exact hput.put
  · exact (h g hg).keep hput (hapart g hg) (hend g hg)

end Field

end FlatMemory
