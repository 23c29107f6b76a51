/-
What the big page table run is for: an abstract model of `start_here` as
two bump allocators that serve the virtual pages in order.

# The model

`Alloc` forgets memory, registers and tables, and keeps numbers: the page
being mapped, the two pointers, and what has been handed out. A table of
level `k` is needed exactly when the page is the first of a span of
`k.span` pages (`needs`), so the model does not look at entries at all.
The region check is a parameter `U`.

`Boot.abs` reads the abstract state off a machine state. That the code's
steps are this model's steps is proved in `Proofs/Refinement.lean`; the
facts about the allocators alone (`Proofs/Allocator.lean`) and their
progress (`Proofs/Progress.lean`) are proved here, on plain numbers.
-/
import BootLoader.ThirdStage.BigPageTable

namespace BootLoader.ThirdStage

-- ============================================================== the state

/-- Virtual pages one table of level `k` serves. -/
def Level.span : Level → Nat
  | .l1 => 0x8000000
  | .l2 => 0x40000
  | .l3 => 0x200

structure Alloc where
  pc : Label
  page : Nat
  ptr : Nat
  data : Nat
  tables : List (Level × Nat)
  frames : List (Nat × Nat)

namespace Alloc

/-- Pages `start_here` maps. -/
def pageCount : Nat := 0x140000

/-- `or x, 3`, for `x` with its two low bits equal. -/
def tag (x : Nat) : Nat := x / 4 * 4 + 3

/-- The page is the first that a table of level `k` serves. -/
def needs (a : Alloc) (k : Level) : Prop := a.page % k.span = 0

instance (a : Alloc) (k : Level) : Decidable (a.needs k) :=
  inferInstanceAs (Decidable (_ = _))

-- ============================================================== the steps

/-- To the allocation of level `k`, or past it. -/
def enter (k : Level) (a : Alloc) : Alloc :=
  { a with pc := if a.needs k then .allocate k else .skip k }

/-- Take the frame at the pointer, or search. -/
def choose (yes : Bool) (k : Level) (a : Alloc) : Alloc :=
  { a with pc := if yes then .approve_allocate k else .adjust_then_call k }

/-- One round of the table search. -/
def adjust (U : Nat → Bool) (k : Level) (a : Alloc) : Alloc :=
  { a with
    ptr := a.ptr + 0x1000
    pc := if U (a.ptr + 0x1000) then .approve_allocate k
      else .adjust_then_call k }

/-- Hand out a table page. -/
def approve (k : Level) (a : Alloc) : Alloc :=
  { a with
    ptr := tag a.ptr + 0x1000
    tables := a.tables ++ [(k, tag a.ptr)]
    pc := .skip k }

/-- Frames up to 0x200000 are taken unasked. -/
def chooseFrame (a : Alloc) : Alloc :=
  { a with
    pc := if a.data ≤ 0x200000 then .approve_allocate4
      else .adjust_then_call4 }

/-- One round of the frame search. -/
def adjustFrame (U : Nat → Bool) (a : Alloc) : Alloc :=
  { a with
    data := a.data + 0x1000
    pc := if U (a.data + 0x1000) then .approve_allocate4
      else .adjust_then_call4 }

/-- Hand out a data frame. -/
def approveFrame (a : Alloc) : Alloc :=
  { a with
    data := a.data + 0x1000
    frames := a.frames ++ [(0x1000 * a.page, a.data)]
    pc := .skip4 }

/-- On to the next page, or out. -/
def next (a : Alloc) : Alloc :=
  { a with
    page := a.page + 1
    pc := if a.page + 1 < pageCount then .page_walk else .done }

/-- One step of the model, with the region check `U` and the undefined
flag `zf`. -/
def step (U : Nat → Bool) (zf : Bool) (a : Alloc) : Alloc :=
  match a.pc with
  | .page_walk => a.enter .l1
  | .allocate .l1 => a.choose zf .l1
  | .allocate .l2 => a.choose zf .l2
  | .allocate .l3 => a.choose (U a.ptr) .l3
  | .adjust_then_call k => a.adjust U k
  | .approve_allocate k => a.approve k
  | .skip .l1 => a.enter .l2
  | .skip .l2 => a.enter .l3
  | .skip .l3 => { a with pc := .allocate4 }
  | .allocate4 => a.chooseFrame
  | .adjust_then_call4 => a.adjustFrame U
  | .approve_allocate4 => a.approveFrame
  | .skip4 => { a with pc := .returned }
  | .returned => a.next
  | .done => a

/-- The start: the table pointer stands behind the PML4 page. -/
def init : Alloc where
  pc := .page_walk
  page := 0
  ptr := 0x101000
  data := 0
  tables := []
  frames := []

end Alloc

-- ======================================================== the abstraction

/-- The region check of the map in `m`, on numbers. -/
def accepts (m : FlatMemory.Mem) (x : Nat) : Bool :=
  usable m (BitVec.ofNat 64 x)

/-- What a machine state is about. -/
def Boot.abs (s : Boot) : Alloc where
  pc := s.pc
  page := (s.cpu.reg .r8).toNat / 0x1000
  ptr := (s.cpu.reg .rcx).toNat
  data := (s.cpu.reg .rbx).toNat
  tables := s.tables.map fun x => (x.1, x.2.toNat)
  frames := s.frames.map fun x => (x.1.toNat, x.2.toNat)

end BootLoader.ThirdStage
