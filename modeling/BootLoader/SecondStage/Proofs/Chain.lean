/-
The first two stages in one run, from 7C00h to 10000h.

The first stage leaves the disk's sectors at the addresses the second is
assembled for, so what the second needs of memory is a matter of the disk
(`imageOf`). DI still holds the last sector count at the jump, and no
return address of the second stage is that number.
-/
import BootLoader.SecondStage.Proofs.Main

namespace BootLoader.SecondStage

open FlatMemory Mem Segment Paging RealMode Pc FirstStage ModeSwitch

variable {ω : Type _} {B : Bios ω} {K : BootLabels} {L : SecondLabels}
  {P : Processor} {own : BitVec 64 → Prop}
  {depth fuel bound rounds : Nat} {c d : Pc ω} {s : Machine ω}
  {greeting : List (BitVec 8)} {g : Geometry}
  {drive : BitVec 8 → Nat → Nat → BitVec 8} {a20 : ω → Option Bool}
  {fin : Ending} {es : List Region}

/-- From the first instruction of the first stage to the first of the
third. -/
def boot (P : Processor) (B : Bios ω) (K : BootLabels) (L : SecondLabels)
    (fuel bound rounds : Nat) (s : Machine ω) : Result (Entered ω) := do
  let s ← s.run (first_stage B K fuel bound)
  second_stage P B L fuel rounds s

end BootLoader.SecondStage
