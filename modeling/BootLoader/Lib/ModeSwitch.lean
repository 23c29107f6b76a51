/-
The way from real mode to long mode on an x86 processor: the control
registers, the segment descriptors, and the faults on the way.

A linear address is physical until paging is on, and from then on goes
through the four-level walk, for a fetch and a table read as for any other
access (`translate`). The walk asks for the writable bit as well, which is
more than a fetch needs. Everything here runs at privilege level 0, and
there is no local descriptor table.
-/
import BootLoader.Lib.Paging

namespace ModeSwitch

open FlatMemory Mem Paging

/-- The exceptions an instruction of the switch can raise. -/
inductive Fault
  | generalProtection | notPresent | pageFault
  deriving DecidableEq, Repr

-- ========================================================== the registers

/-- The registers that make up the mode, and the table of segments. -/
structure Control where
  cr0 : BitVec 32
  cr3 : BitVec 32
  cr4 : BitVec 32
  efer : BitVec 64
  gdtBase : BitVec 32
  gdtLimit : BitVec 16
  deriving DecidableEq, Repr

namespace Control

variable (c : Control)

def protection : Bool := c.cr0.getLsbD 0

def paging : Bool := c.cr0.getLsbD 31

def pae : Bool := c.cr4.getLsbD 5

/-- Long mode asked for. -/
def lme : Bool := c.efer.getLsbD 8

/-- Long mode active. -/
def lma : Bool := c.efer.getLsbD 10

/-- EFER with its read-only bit at `b`. -/
def withLma (b : Bool) (e : BitVec 64) : BitVec 64 :=
  (e &&& 0xFFFFFFFFFFFFFBFF#64) ||| (if b then 0x400#64 else 0#64)

/-- `mov cr0, v`, from a code segment that is not a 64-bit one. -/
def movCr0 (v : BitVec 32) : Except Fault Control :=
  if v.getLsbD 31 && !v.getLsbD 0 then .error .generalProtection
  else if v.getLsbD 31 && c.lme && !c.pae then .error .generalProtection
  else .ok { c with cr0 := v, efer := withLma (v.getLsbD 31 && c.lme) c.efer }

/-- `mov cr4, v`. PAE stays on in long mode. -/
def movCr4 (v : BitVec 32) : Except Fault Control :=
  if c.lma && !v.getLsbD 5 then .error .generalProtection
  else .ok { c with cr4 := v }

/-- `wrmsr` to EFER, on a processor with long mode or without. The bit that
asks for it is fixed while paging is on. -/
def writeEfer (long : Bool) (v : BitVec 64) : Except Fault Control :=
  if v.getLsbD 8 && !long then .error .generalProtection
  else if c.paging && (v.getLsbD 8 != c.lme) then .error .generalProtection
  else .ok { c with efer := withLma c.lma v }

/-- `lgdt`. -/
def lgdt (limit : BitVec 16) (base : BitVec 32) : Control :=
  { c with gdtBase := base, gdtLimit := limit }

-- ============================================================== accesses

/-- The physical address of the linear address `a`. -/
def translate (m : Mem) (a : BitVec 64) : Except Fault (BitVec 64) :=
  if c.paging then
    match walk m (c.cr3.setWidth 64) a with
    | .mapped p => .ok p
    | _ => .error .pageFault
  else .ok a

/-- Memory by linear address, zero where there is none. -/
def view (m : Mem) : Mem := fun a =>
  match c.translate m a with
  | .ok p => m p
  | .error _ => 0#8

/-- All of the `n` bytes at `a` can be reached. -/
def reaches (m : Mem) (a : BitVec 64) (n : Nat) : Bool :=
  (List.range n).all fun k =>
    (c.translate m (a + BitVec.ofNat 64 k)).toOption.isSome

/-- The `n` bytes at the linear address `a`. -/
def read (m : Mem) (a : BitVec 64) (n : Nat) :
    Except Fault (BitVec (8 * n)) :=
  if c.reaches m a n then .ok ((c.view m).read a n) else .error .pageFault

end Control

-- ============================================================ descriptors

/-- An entry of the descriptor table. -/
abbrev Descriptor := BitVec 64

namespace Descriptor

variable (d : Descriptor)

/-- Readable, for code; writable, for data. -/
def access : Bool := d.getLsbD 41

def conforming : Bool := d.getLsbD 42

def executable : Bool := d.getLsbD 43

/-- Code or data, not a gate or a system segment. -/
def ordinary : Bool := d.getLsbD 44

def dpl : BitVec 2 := d.extractLsb' 45 2

def present : Bool := d.getLsbD 47

/-- A 64-bit code segment. -/
def long : Bool := d.getLsbD 53

/-- A 32-bit segment. -/
def big : Bool := d.getLsbD 54

end Descriptor

namespace Control

variable (c : Control)

/-- The entry of a selector. -/
def descriptor (m : Mem) (sel : BitVec 16) : Except Fault Descriptor :=
  if sel.toNat / 8 = 0 ∨ sel.getLsbD 2 = true
      ∨ c.gdtLimit.toNat < sel.toNat / 8 * 8 + 7 then
    .error .generalProtection
  else
    c.read m (c.gdtBase.setWidth 64 + BitVec.ofNat 64 (sel.toNat / 8 * 8)) 8

/-- The code segment of a far jump. -/
def codeSegment (m : Mem) (sel : BitVec 16) : Except Fault Descriptor := do
  let d ← c.descriptor m sel
  if !(d.ordinary && d.executable) then .error .generalProtection
  else if d.dpl ≠ 0#2 then .error .generalProtection
  else if !d.conforming && sel.extractLsb' 0 2 != 0#2 then
    .error .generalProtection
  else if c.lma && d.long && d.big then .error .generalProtection
  else if !d.present then .error .notPresent
  else .ok d

/-- A selector loaded into a data segment register. -/
def dataSegment (m : Mem) (sel : BitVec 16) : Except Fault Descriptor :=
  if sel.toNat / 4 = 0 then .ok 0#64
  else do
    let d ← c.descriptor m sel
    if !(d.ordinary && (!d.executable || d.access)) then
      .error .generalProtection
    else if !(d.executable && d.conforming)
        && (d.dpl).ult (sel.extractLsb' 0 2) then .error .generalProtection
    else if !d.present then .error .notPresent
    else .ok d

-- ============================================================ their rules

variable {c} {d : Control} {m : Mem} {a : BitVec 64} {n : Nat}
  {v : BitVec 32}

theorem withLma_bit (b : Bool) (e : BitVec 64) :
    (withLma b e).getLsbD 10 = b := by
  unfold withLma
  rw [BitVec.getLsbD_or, BitVec.getLsbD_and]
  cases b <;> simp

theorem withLma_lme (b : Bool) (e : BitVec 64) :
    (withLma b e).getLsbD 8 = e.getLsbD 8 := by
  unfold withLma
  rw [BitVec.getLsbD_or, BitVec.getLsbD_and]
  cases b <;> simp

/-- Paging goes on with protection, and in long mode with PAE. -/
theorem movCr0_eq (h : v.getLsbD 31 = true →
    v.getLsbD 0 = true ∧ (c.lme = true → c.pae = true)) :
    c.movCr0 v = .ok { c with
      cr0 := v, efer := withLma (v.getLsbD 31 && c.lme) c.efer } := by
  unfold movCr0
  cases hpg : v.getLsbD 31 with
  | false => simp
  | true =>
      obtain ⟨hpe, hpae⟩ := h hpg
      cases hlme : c.lme with
      | false => simp [hpe]
      | true => simp [hpe, hpae hlme]

/-- What a processor does that has no long mode. -/
theorem writeEfer_fault {x : BitVec 64} (h : x.getLsbD 8 = true) :
    c.writeEfer false x = .error .generalProtection := by
  unfold writeEfer
  rw [h]
  rfl

theorem writeEfer_eq {x : BitVec 64} (h : c.paging = false) :
    c.writeEfer true x = .ok { c with efer := withLma c.lma x } := by
  unfold writeEfer
  simp [h]

/-- Linear addresses that are physical ones. -/
theorem reaches_of_identity (h : ∀ k < n,
    c.translate m (a + BitVec.ofNat 64 k) = .ok (a + BitVec.ofNat 64 k)) :
    c.reaches m a n = true := by
  unfold reaches
  rw [List.all_eq_true]
  intro k hk
  rw [h k (List.mem_range.1 hk)]
  rfl

theorem read_identity (hn : a.toNat + n ≤ 2 ^ 64) (h : ∀ k < n,
    c.translate m (a + BitVec.ofNat 64 k) = .ok (a + BitVec.ofNat 64 k)) :
    c.read m a n = .ok (m.read a n) := by
  unfold read
  rw [if_pos (reaches_of_identity h)]
  refine congrArg Except.ok (read_congr_bytes hn fun b hlo hhi => ?_)
  obtain ⟨k, hk⟩ : ∃ k, b.toNat = a.toNat + k :=
    ⟨b.toNat - a.toNat, by omega⟩
  have hb : b = a + BitVec.ofNat 64 k := by
    apply BitVec.eq_of_toNat_eq
    rw [BitVec.toNat_add, BitVec.toNat_ofNat]
    omega
  unfold view
  rw [hb, h k (by omega)]

/-- The entry of a selector in a table below its limit. -/
theorem descriptor_eq {sel : BitVec 16} (hnull : sel.toNat / 8 ≠ 0)
    (hgdt : sel.getLsbD 2 = false)
    (hlimit : sel.toNat / 8 * 8 + 7 ≤ c.gdtLimit.toNat) :
    c.descriptor m sel
      = c.read m (c.gdtBase.setWidth 64
          + BitVec.ofNat 64 (sel.toNat / 8 * 8)) 8 := by
  unfold descriptor
  refine if_neg ?_
  rw [hgdt]
  rintro (h | h | h)
  · exact hnull h
  · cases h
  · omega

end Control

end ModeSwitch
