/-
A register access of the main line, interrupted between two instructions.

`Depth r s d t` says that `t` is `s` with RSP `d` bytes under `r` and
nothing but the stack changed. Most instructions of an access only move
RSP; a list of them is a `Path` from one depth to another, whatever the
driver's cells hold, so it can be followed up to the interruption and again
from it. What the rest of the access does is then read off the cells the
handler left: it goes wrong from the first store to a cell up to the last
load of one.
-/
import BootLoader.ThirdStage.Proofs.NicInterruption
import BootLoader.ThirdStage.Proofs.NicPorts

namespace BootLoader.ThirdStage

open FlatMemory Mem Words

variable {L : Layout} {l : ServiceLabels L} {p v : BitVec 64} {s t u : Nic}
  {is js : List Instr} {r d e k : Nat}

-- ============================================================== the depths

/-- `t` is `s` but for the stack, RSP `d` bytes under `r`. -/
structure Depth (r : Nat) (s : Nic) (d : Nat) (t : Nic) : Prop where
  rsp : (t.cpu.reg .rsp).toNat + d = r
  mem : ∀ a : BitVec 64, 0x10000 ≤ a.toNat → t.cpu.mem a = s.cpu.mem a
  silent : Silent s t

/-- An instruction that takes every machine with the card in memory from
the depth `d` to the depth `e`. -/
def Moves (l : NicLabels L) (d e : Nat) (i : Instr) : Prop :=
  ∀ (r : Nat) (s t : Nic), 0x5200 ≤ r → r ≤ 0x10000 → Mapped l s.cpu.mem →
    Depth r s d t → ∃ u, i t = some u ∧ Depth r s e u

/-- Instructions from the depth `d` to the depth `e`, never more than 120
bytes down. -/
def Path (l : NicLabels L) : List Instr → Nat → Nat → Prop
  | [], d, e => d = e
  | i :: is, d, e => ∃ d' ≤ 120, Moves l d d' i ∧ Path l is d' e

theorem Path.append {l : NicLabels L} {c : Nat} (h : Path l is c d)
    (h' : Path l js d e) : Path l (is ++ js) c e := by
  induction is generalizing c with
  | nil =>
      obtain rfl : c = d := h
      exact h'
  | cons i is ih =>
      obtain ⟨c', hc', hi, his⟩ := h
      exact ⟨c', hc', hi, ih his⟩

/-- A path cut anywhere. -/
theorem Path.split {l : NicLabels L} (h : Path l is d e) (hd : d ≤ 120)
    (n : Nat) :
    ∃ c ≤ 120, Path l (is.take n) d c ∧ Path l (is.drop n) c e := by
  induction is generalizing d n with
  | nil =>
      refine ⟨d, hd, ?_, ?_⟩
      · rw [List.take_nil]
        exact rfl
      · rw [List.drop_nil]
        exact h
  | cons i is ih =>
      cases n with
      | zero => exact ⟨d, hd, rfl, h⟩
      | succ n =>
          obtain ⟨d', hd', hi, his⟩ := h
          obtain ⟨c, hc, htake, hdrop⟩ := ih his hd' n
          exact ⟨c, hc, ⟨d', hd', hi, htake⟩, hdrop⟩

theorem steps_cons (i : Instr) (is : List Instr) (s : Nic) :
    steps (i :: is) s = (i s).bind (steps is) := rfl

theorem steps_append (is js : List Instr) (s : Nic) :
    steps (is ++ js) s = (steps is s).bind (steps js) := by
  unfold steps
  exact List.foldlM_append

/-- Running along a path. -/
theorem Path.run {l : NicLabels L} (h : Path l is d e) (hlo : 0x5200 ≤ r)
    (hhi : r ≤ 0x10000) (hm : Mapped l s.cpu.mem) (hl : Depth r s d t) :
    ∃ u, steps is t = some u ∧ Depth r s e u := by
  induction is generalizing d t with
  | nil =>
      obtain rfl : d = e := h
      exact ⟨t, rfl, hl⟩
  | cons i is ih =>
      obtain ⟨d', -, hi, his⟩ := h
      obtain ⟨t', ht', hl'⟩ := hi r s t hlo hhi hm hl
      rw [steps_cons, ht']
      exact ih his hl'

-- ======================================================== the instructions

theorem Silent.run (h : Silent s t) (f : Cpu → Cpu) : Silent s (t.run f) :=
  ⟨h.out, h.sent, h.received, h.updates⟩

/-- One more instruction on a path. -/
theorem Path.cons {l : NicLabels L} {i : Instr} {c : Nat} (hd : d ≤ 120)
    (hi : Moves l c d i) (h : Path l is d e) : Path l (i :: is) c e :=
  ⟨d, hd, hi, h⟩

theorem steps_map (f : Reg → Cpu → Cpu) (xs : List Reg) :
    ∀ s : Nic, steps (xs.map fun x => Instr.cpu (f x)) s
      = some (s.run fun c => xs.foldl (fun c x => f x c) c) := by
  induction xs with
  | nil => exact fun _ => rfl
  | cons x xs ih => exact fun s => ih (s.run (f x))

theorem steps_cpu (f : Cpu → Cpu) (is : List Instr) (s : Nic) :
    steps (Instr.cpu f :: is) s = steps is (s.run f) := rfl

theorem run_id (s : Nic) : s.run id = s := rfl

/-- The way in, to a card in memory. -/
theorem steps_entry {l : NicLabels L}
    (hm : Mapped l (s.run Cpu.pushaq).cpu.mem) :
    steps (commandEntry l) s = some (s.run Cpu.pushaq) := by
  unfold commandEntry
  rw [steps_append, steps_map fun x c => c.push x, Option.bind_some,
    steps_cpu, run_id, steps_cons]
  unfold Cpu.pushaq at hm ⊢
  rw [if_neg hm]
  rfl

theorem steps_exit (s : Nic) :
    steps commandExit s = some (s.run Cpu.popaq) := by
  unfold commandExit Cpu.popaq
  rw [steps_cpu, run_id, steps_map fun x c => c.pop x]

theorem mapped_pushaq {l : NicLabels L} (hs : StackOk s.cpu)
    (hm : Mapped l s.cpu.mem) : Mapped l (s.run Cpu.pushaq).cpu.mem := by
  unfold Mapped
  rw [show (s.run Cpu.pushaq).cpu.mem l.e1000_ioport_flag
    = s.cpu.mem l.e1000_ioport_flag from (save_keeps l hs).flag]
  exact hm

/-- `e1000_read_command` between its saves, the card in memory. -/
def readBody (l : NicLabels L) (answer : BitVec 32) (t : Nic) : Nic :=
  let s := t.run fun c => c.set .rax 0#64
  let s := s.run fun c => load16 c .rax l.e1000_rw_address
  let s := s.run fun c => c.set .rax
    (c.reg .rax + c.mem.read64 l.e1000_vaddress)
  let s := s.run fun c => c.set .rbx 0#64
  let s := s.run fun c =>
    (c.reads (c.reg .rax) 4).set .rbx (answer.setWidth 64)
  s.run fun c => c.store32 l.e1000_rw_data (c.low32 .rbx)

theorem read_command_body {l : NicLabels L} (answer : BitVec 32)
    (hm : Mapped l (s.run Cpu.pushaq).cpu.mem) :
    e1000_read_command l answer s
      = (readBody l answer (s.run Cpu.pushaq)).run Cpu.popaq := by
  unfold e1000_read_command readBody
  dsimp only
  rw [if_neg hm]

/-- The register an access names, in memory. -/
def namedAt (l : NicLabels L) (m : Mem) : BitVec 64 :=
  (m.read16 l.e1000_rw_address).setWidth 64 + m.read64 l.e1000_vaddress

theorem steps_readBody (l : NicLabels L) (card : BitVec 64 → BitVec 32)
    (t : Nic) :
    steps (loadAddress l ++ addBase l
        ++ [loadCard card,
          Instr.cpu fun c => c.store32 l.e1000_rw_data (c.low32 .rbx)]) t
      = some (readBody l (card (namedAt l t.cpu.mem)) t) := by
  unfold namedAt
  rw [← merge16_zero]
  rfl

/-- The instructions of the read are the command. -/
theorem steps_readCommand {l : NicLabels L} (hs : StackOk s.cpu)
    (hm : Mapped l s.cpu.mem) (card : BitVec 64 → BitVec 32) :
    steps (readCommand l card) s = some (e1000_read_command l
      (card (namedAt l s.cpu.mem)) s) := by
  have hflag := mapped_pushaq hs hm
  have hnamed : namedAt l (s.run Cpu.pushaq).cpu.mem
      = namedAt l s.cpu.mem := by
    have hvaddr := vaddress_toNat l
    have hbase := l.mem_base_in
    unfold namedAt
    rw [show (s.run Cpu.pushaq).cpu.mem.read16 l.e1000_rw_address
        = s.cpu.mem.read16 l.e1000_rw_address from (save_keeps l hs).address,
      show (s.run Cpu.pushaq).cpu.mem.read64 l.e1000_vaddress
        = s.cpu.mem.read64 l.e1000_vaddress from
          pushaq_read (n := 8) hs (by omega) (by omega)]
  rw [read_command_body _ hflag, ← hnamed]
  unfold readCommand
  rw [List.append_assoc, List.append_assoc, List.append_assoc, steps_append,
    steps_entry hflag, Option.bind_some, ← List.append_assoc,
    ← List.append_assoc, steps_append, steps_readBody, Option.bind_some,
    steps_exit]

-- ============================================================== the outcome

/-- The data loaded and stored to the card. -/
def stored (l : NicLabels L) (u : Nic) : Nic :=
  (u.run fun c => load32 c .rbx l.e1000_rw_data).write
    (.mmio (u.cpu.reg .rax)) (u.cpu.mem.read32 l.e1000_rw_data)

/-- The main line at a depth is ready for the handler. -/
theorem Depth.ready {l : NicLabels L} (hp : RingRoom p)
    (hlo : 0x5100 + 560 ≤ r) (hhi : r ≤ 0x10000)
    (h : InPlace l p v s.cpu.mem) (hd : d ≤ 120) (hl : Depth r s d u) :
    StackRoom 431 u.cpu ∧ InPlace l p v u.cpu.mem := by
  have hrsp := hl.rsp
  refine ⟨⟨by omega, by omega⟩, h.congr hp fun a ha => hl.mem a ?_⟩
  rcases ha.place hp with hlow | hhigh <;> omega

end BootLoader.ThirdStage
