/-
The pair of 8259 interrupt controllers of a PC, as far as software and the
processor see them.

# One controller

`Controller` has the mask and in-service registers and the initialisation
words. A write to the command port with bit 4 set starts the
initialisation (ICW1), after which the data port takes ICW2, ICW3 and
ICW4 in turn as ICW1 asks for them (`Stage`); from then on the data port
is the mask register. A command with bits 4 and 3 clear is an OCW2, of
which the non-specific end of interrupt is modelled: it clears the bit of
highest priority, the lowest, in the in-service register.

# The pair

Lines 0 to 7 are the master's, lines 8 to 15 the slave's, whose output is
wired to the master's line 2. `Pair.passes` says whether the masks let a
line through, `Pair.acknowledge` is what the processor's acknowledgement
does, and `Pair.vector` the interrupt number it gets.
-/
import Mathlib.Algebra.Group.Nat.Defs
import Mathlib.Tactic.Common

namespace Pic8259

/-- What the data port takes next. -/
inductive Stage
  | ready | icw2 | icw3 | icw4
  deriving DecidableEq, Repr

structure Controller where
  imr : BitVec 8
  isr : BitVec 8
  icw1 : BitVec 8
  icw2 : BitVec 8
  icw3 : BitVec 8
  icw4 : BitVec 8
  stage : Stage
  deriving DecidableEq, Repr

namespace Controller

/-- The non-specific end of interrupt. -/
def endOfInterrupt (c : Controller) : Controller :=
  { c with isr := c.isr &&& (c.isr - 1#8) }

/-- A write to the command port. -/
def command (c : Controller) (v : BitVec 8) : Controller :=
  if v.getLsbD 4 then
    { c with
      imr := 0#8
      isr := 0#8
      icw1 := v
      icw4 := if v.getLsbD 0 then c.icw4 else 0#8
      stage := .icw2 }
  else if v.getLsbD 3 then c
  else if v.extractLsb' 5 3 = 1#3 then c.endOfInterrupt
  else c

/-- The stage past ICW3, or past ICW2 on a single controller. -/
def last (c : Controller) : Stage :=
  if c.icw1.getLsbD 0 then .icw4 else .ready

/-- A write to the data port. -/
def data (c : Controller) (v : BitVec 8) : Controller :=
  match c.stage with
  | .ready => { c with imr := v }
  | .icw2 =>
      { c with icw2 := v, stage := if c.icw1.getLsbD 1 then c.last else .icw3 }
  | .icw3 => { c with icw3 := v, stage := c.last }
  | .icw4 => { c with icw4 := v, stage := .ready }

/-- The processor takes line `i`: in service, unless ICW4 asks for the
automatic end of interrupt. -/
def take (c : Controller) (i : Nat) : Controller :=
  if c.icw4.getLsbD 1 then c else { c with isr := c.isr ||| (1#8 <<< i) }

/-- The interrupt number of line `i`. -/
def number (c : Controller) (i : Nat) : BitVec 8 :=
  (c.icw2 &&& 0xF8#8) + BitVec.ofNat 8 i

/-- Past the initialisation the data port is the mask register. -/
theorem data_ready {c : Controller} (h : c.stage = .ready) (v : BitVec 8) :
    c.data v = { c with imr := v } := by
  unfold data
  split <;> simp_all

end Controller

structure Pair where
  master : Controller
  slave : Controller
  deriving DecidableEq, Repr

namespace Pair

/-- Both controllers past their initialisation. -/
def Ready (p : Pair) : Prop := p.master.stage = .ready ∧ p.slave.stage = .ready

/-- The masks of all sixteen lines. -/
def mask (p : Pair) : BitVec 16 := p.slave.imr ++ p.master.imr

/-- No mask on the way of line `n`. -/
def passes (p : Pair) (n : Nat) : Bool :=
  if n < 8 then !p.master.imr.getLsbD n
  else !p.slave.imr.getLsbD (n - 8) && !p.master.imr.getLsbD 2

/-- The processor acknowledges line `n`. -/
def acknowledge (p : Pair) (n : Nat) : Pair :=
  if n < 8 then { p with master := p.master.take n }
  else { master := p.master.take 2, slave := p.slave.take (n - 8) }

/-- The interrupt number the acknowledgement gets. -/
def vector (p : Pair) (n : Nat) : BitVec 8 :=
  if n < 8 then p.master.number n else p.slave.number (n - 8)

/-- Nothing in service. -/
def Idle (p : Pair) : Prop := p.master.isr = 0#8 ∧ p.slave.isr = 0#8

instance (p : Pair) : Decidable p.Idle := inferInstanceAs (Decidable (_ ∧ _))

-- ============================================================== the ports

/-- A byte written to a port. -/
def outb (p : Pair) (port : BitVec 16) (v : BitVec 8) : Pair :=
  if port = 0x20#16 then { p with master := p.master.command v }
  else if port = 0x21#16 then { p with master := p.master.data v }
  else if port = 0xA0#16 then { p with slave := p.slave.command v }
  else if port = 0xA1#16 then { p with slave := p.slave.data v }
  else p

/-- A byte read from a port: the data ports return the masks, and `other`
answers for every other port. -/
def inb (p : Pair) (other : BitVec 16 → BitVec 8) (port : BitVec 16) :
    BitVec 8 :=
  if port = 0x21#16 then p.master.imr
  else if port = 0xA1#16 then p.slave.imr
  else other port

/-- A doubleword written: four bytes to four ports. -/
def outd (p : Pair) (port : BitVec 16) (v : BitVec 32) : Pair :=
  (((p.outb port (v.extractLsb' 0 8)).outb (port + 1#16)
    (v.extractLsb' 8 8)).outb (port + 2#16) (v.extractLsb' 16 8)).outb
    (port + 3#16) (v.extractLsb' 24 8)

/-- A doubleword read: four bytes from four ports. -/
def ind (p : Pair) (other : BitVec 16 → BitVec 8) (port : BitVec 16) :
    BitVec 32 :=
  p.inb other (port + 3#16) ++ p.inb other (port + 2#16)
    ++ p.inb other (port + 1#16) ++ p.inb other port

-- ============================================================== the masks

theorem getLsbD_mask (p : Pair) (n : Nat) :
    p.mask.getLsbD n = if n < 8 then p.master.imr.getLsbD n
      else p.slave.imr.getLsbD (n - 8) := by
  unfold mask
  exact BitVec.getLsbD_append

/-- The data port of a ready master is its mask register. -/
theorem outd_master {p : Pair} (h : p.Ready) (v : BitVec 32) :
    p.outd 0x21#16 v
      = { p with master := { p.master with imr := v.extractLsb' 0 8 } } := by
  obtain ⟨hm, -⟩ := h
  have hdata := Controller.data_ready hm (v.extractLsb' 0 8)
  unfold outd outb
  simp [hdata]

theorem outd_slave {p : Pair} (h : p.Ready) (v : BitVec 32) :
    p.outd 0xA1#16 v
      = { p with slave := { p.slave with imr := v.extractLsb' 0 8 } } := by
  obtain ⟨-, hs⟩ := h
  have hdata := Controller.data_ready hs (v.extractLsb' 0 8)
  unfold outd outb
  simp [hdata]

/-- The low byte of a doubleword read is the byte of the port itself. -/
theorem ind_low (p : Pair) (other : BitVec 16 → BitVec 8)
    (port : BitVec 16) {i : Nat} (hi : i < 8) :
    (p.ind other port).getLsbD i = (p.inb other port).getLsbD i := by
  unfold ind
  rw [BitVec.getLsbD_append, if_pos hi]

end Pair

-- ============================================= what software can reach

/-- `c'` is `c` later, with no initialisation and no acknowledgement in
between: the mode is the same, and nothing new is in service. -/
structure Controller.Within (c c' : Controller) : Prop where
  ready : c'.stage = .ready
  icw2 : c'.icw2 = c.icw2
  icw4 : c'.icw4 = c.icw4
  isr : ∀ i, c'.isr.getLsbD i = true → c.isr.getLsbD i = true

namespace Controller

variable {c c' c'' : Controller}

theorem Within.refl (h : c.stage = .ready) : c.Within c :=
  ⟨h, rfl, rfl, fun _ hi => hi⟩

theorem Within.trans (h : c.Within c') (h' : c'.Within c'') :
    c.Within c'' :=
  ⟨h'.ready, h'.icw2.trans h.icw2, h'.icw4.trans h.icw4,
    fun i hi => h.isr i (h'.isr i hi)⟩

theorem endOfInterrupt_within (h : c.stage = .ready) :
    c.Within c.endOfInterrupt := by
  refine ⟨h, rfl, rfl, ?_⟩
  intro i hi
  have hand : (c.isr &&& (c.isr - 1#8)).getLsbD i = true := hi
  rw [BitVec.getLsbD_and, Bool.and_eq_true] at hand
  exact hand.1

theorem command_within (h : c.stage = .ready) {v : BitVec 8}
    (hv : v.getLsbD 4 = false) : c.Within (c.command v) := by
  unfold command
  rw [if_neg (Bool.eq_false_iff.1 hv)]
  split
  · exact Within.refl h
  · split
    · exact endOfInterrupt_within h
    · exact Within.refl h

theorem data_within (h : c.stage = .ready) (v : BitVec 8) :
    c.Within (c.data v) := by
  rw [data_ready h]
  exact ⟨h, rfl, rfl, fun _ hi => hi⟩

/-- At most one interrupt in service: the end of interrupt clears it. -/
theorem endOfInterrupt_isr {i : Nat} (hi : i < 8)
    (h : ∀ j, c.isr.getLsbD j = true → j = i) :
    c.endOfInterrupt.isr = 0#8 := by
  have hcases : c.isr = 0#8 ∨ c.isr = 1#8 <<< i := by
    cases hbit : c.isr.getLsbD i with
    | false =>
        refine Or.inl (BitVec.eq_of_getLsbD_eq ?_)
        intro j _
        rw [BitVec.getLsbD_zero]
        cases hj : c.isr.getLsbD j with
        | false => rfl
        | true => rw [h j hj, hbit] at hj; exact absurd hj (by simp)
    | true =>
        refine Or.inr (BitVec.eq_of_getLsbD_eq ?_)
        intro j hj8
        rw [BitVec.getLsbD_shiftLeft]
        cases hj : c.isr.getLsbD j with
        | true =>
            have hji := h j hj
            subst hji
            simp [hj8]
        | false =>
            have hne : j ≠ i := fun hji => by rw [hji, hbit] at hj; simp at hj
            have hsub : ¬ (j < i) → j - i ≠ 0 := by omega
            by_cases hlt : j < i
            · simp [hlt]
            · simp [hsub hlt]
  show c.isr &&& (c.isr - 1#8) = 0#8
  rcases hcases with hz | hone
  · rw [hz]
    rfl
  · rw [hone]
    -- the eight lines
    have hall : ∀ j : Fin 8,
        (1#8 <<< j.val) &&& ((1#8 <<< j.val) - 1#8) = 0#8 := by decide
    exact hall ⟨i, hi⟩

end Controller

namespace Pair

variable {p p' p'' : Pair}

def Within (p p' : Pair) : Prop :=
  p.master.Within p'.master ∧ p.slave.Within p'.slave

theorem Within.refl (h : p.Ready) : p.Within p :=
  ⟨Controller.Within.refl h.1, Controller.Within.refl h.2⟩

theorem Within.trans (h : p.Within p') (h' : p'.Within p'') :
    p.Within p'' :=
  ⟨h.1.trans h'.1, h.2.trans h'.2⟩

theorem Within.isReady (h : p.Within p') : p'.Ready :=
  ⟨h.1.ready, h.2.ready⟩

/-- A write that starts no initialisation. -/
def Operates (w : BitVec 16 × BitVec 8) : Prop :=
  w.1 = 0x20#16 ∨ w.1 = 0xA0#16 → w.2.getLsbD 4 = false

theorem outb_within (h : p.Ready) {w : BitVec 16 × BitVec 8}
    (hw : Operates w) : p.Within (p.outb w.1 w.2) := by
  obtain ⟨hm, hs⟩ := h
  have hmaster := Controller.Within.refl hm
  have hslave := Controller.Within.refl hs
  unfold outb
  split
  case isTrue hport =>
      exact ⟨Controller.command_within hm (hw (Or.inl hport)), hslave⟩
  split
  · exact ⟨Controller.data_within hm _, hslave⟩
  split
  case isTrue hport =>
      exact ⟨hmaster, Controller.command_within hs (hw (Or.inr hport))⟩
  split
  · exact ⟨hmaster, Controller.data_within hs _⟩
  · exact ⟨hmaster, hslave⟩

/-- A sequence of writes. -/
def outs (p : Pair) (ws : List (BitVec 16 × BitVec 8)) : Pair :=
  ws.foldl (fun p w => p.outb w.1 w.2) p

/-- Port writes that start no initialisation put nothing in service. -/
theorem outs_within {ws : List (BitVec 16 × BitVec 8)}
    (hws : ∀ w ∈ ws, Operates w) (h : p.Ready) : p.Within (p.outs ws) := by
  induction ws generalizing p with
  | nil => exact Within.refl h
  | cons w ws ih =>
      have hfirst := outb_within h (hws w List.mem_cons_self)
      exact hfirst.trans (ih (fun w' hw' => hws w' (List.mem_cons_of_mem _ hw'))
        hfirst.isReady)

end Pair

end Pic8259
