/-
A read of a register, interrupted between two instructions.

A read has two windows. The register variable is exposed from its store to
its load, the data variable from the store of the answer to the load the
main line makes of it. In between the access lives in RAX and RBX, which
come back.
-/
import BootLoader.ThirdStage.Proofs.NicInterleaving

namespace BootLoader.ThirdStage

open FlatMemory Mem Words

variable {L : Layout} {l : ServiceLabels L} {p v : BitVec 64} {s t u : Nic}
  {is js : List Instr} {r d e k : Nat} {card : BitVec 64 → BitVec 32}
  {reg : BitVec 16}

-- =============================================================== the parts

end BootLoader.ThirdStage
