/-
`check_long_mode.asm`: `check_long_mode` and the two routines it calls.

# The processor

What the routines ask of the processor is a parameter, `Processor`: how
`popfd` takes a value into EFLAGS, and the CPUID table. All that is known
of `popfd` is bit 21, the ID flag, which either takes the popped bit or
stays. The arithmetic flags are not followed through EFLAGS: each compare
is folded into its jump, and no jump here reads a flag `popfd` restored.

A 32-bit push or pop is two words of the 16-bit stack, the low word at the
lower address.
-/
import BootLoader.FirstStage.BiosPrint

namespace BootLoader.RealMode

-- ======================================================== the processor

/-- What CPUID leaves in the four registers. -/
structure Leaf where
  eax : BitVec 32
  ebx : BitVec 32
  ecx : BitVec 32
  edx : BitVec 32
  deriving DecidableEq, Repr

/-- A processor: whether the ID flag can be toggled, EFLAGS after a
`popfd` of a value, and the CPUID table. -/
structure Processor where
  toggles : Bool
  loaded : BitVec 32 → BitVec 32 → BitVec 32
  loaded_id : ∀ old v, (loaded old v).getLsbD 21
    = if toggles then v.getLsbD 21 else old.getLsbD 21
  leaf : BitVec 32 → Leaf

namespace Pc

variable {ω : Type _} (P : Processor) (c : Pc ω)

/-- `push er`, for the value `v` of the register. -/
def push32 (v : BitVec 32) : Pc ω :=
  (c.push (v.extractLsb' 16 16)).push (v.extractLsb' 0 16)

/-- The doubleword on top of the stack. -/
def top32 : BitVec 32 :=
  c.word .ss (c.reg .sp + 2#16) ++ c.word .ss (c.reg .sp)

/-- `pop er`. -/
def pop32 (r : Gpr) : Pc ω :=
  (c.set .sp (c.reg .sp + 4#16)).setWide r c.top32

/-- `pushfd`, which leaves out the VM and RF flags. -/
def pushfd : Pc ω := c.push32 (c.eflags &&& 0x00FCFFFF#32)

/-- `popfd`. -/
def popfd : Pc ω :=
  { c.set .sp (c.reg .sp + 4#16) with eflags := P.loaded c.eflags c.top32 }

/-- `cpuid`. -/
def cpuid : Pc ω :=
  let l := P.leaf (c.wide .ax)
  (((c.setWide .ax l.eax).setWide .bx l.ebx).setWide .cx l.ecx).setWide .dx
    l.edx

end Pc

end BootLoader.RealMode

namespace BootLoader.SecondStage

open RealMode FirstStage

variable {ω : Type _}

-- ========================================================= the routines

/-- The calls of `check_long_mode.asm`. -/
inductive LongModeCall
  | cpuidSupport | withCpuid
  | noCpuid | hasCpuid | hasLongMode | noLongMode
  deriving DecidableEq, Repr

/-- The labels `check_long_mode.asm` uses, and the addresses of the
instructions after its calls. -/
structure LongModeLabels where
  cpuid_not_supported : BitVec 16
  cpuid_supported : BitVec 16
  long_mode_supported_msg : BitVec 16
  long_mode_not_supported_msg : BitVec 16
  back : LongModeCall → BitVec 16

variable (P : Processor) (B : Bios ω) (L : LongModeLabels) (fuel : Nat)

/-- `check_cpuid_support` up to the test: the ID bit in EAX, if it changed
when EFLAGS were loaded with it flipped. One copy of EFLAGS stays on the
stack. -/
def flip_id (c : Pc ω) : Pc ω :=
  let c := c.pushfd
  let c := c.pushfd
  let c := c.pushfd
  let c := c.pop32 .ax
  let c := c.setWide .ax (c.wide .ax ^^^ 0x0200000#32)
  let c := c.push32 (c.wide .ax)
  let c := c.popfd P
  let c := c.pushfd
  let c := c.pop32 .ax
  let c := c.pop32 .cx
  let c := c.setWide .ax (c.wide .ax ^^^ c.wide .cx)
  c.setWide .ax (c.wide .ax &&& 0x0200000#32)

/-- `check_cpuid_support`. -/
def check_cpuid_support (c : Pc ω) : Outcome (Pc ω) := do
  let c := flip_id P c.pusha
  if c.wide .ax = 0x0#32 then
    let c := c.set .si L.cpuid_not_supported
    let _ ← c.call (L.back .noCpuid) (bios_print B fuel)
    .error .hang
  else
    let c := c.set .si L.cpuid_supported
    let c ← c.call (L.back .hasCpuid) (bios_print B fuel)
    let c := c.popfd P
    .ok c.popa.ret

/-- `.long_mode_not_supported`. -/
def long_mode_not_supported (c : Pc ω) : Outcome (Pc ω) := do
  let c := c.set .si L.long_mode_not_supported_msg
  let _ ← c.call (L.back .noLongMode) (bios_print B fuel)
  .error .hang

/-- `check_long_mode_with_cpuid`. The `jl` compares signed numbers. -/
def check_long_mode_with_cpuid (c : Pc ω) : Outcome (Pc ω) :=
  let c := c.pusha
  let c := c.setWide .ax 0x80000000#32
  let c := c.cpuid P
  if (c.wide .ax).slt 0x80000001#32 then long_mode_not_supported B L fuel c
  else
    let c := c.setWide .ax 0x80000001#32
    let c := c.cpuid P
    let c := c.setWide .dx (c.wide .dx &&& 0x20000000#32)
    if c.wide .dx = 0#32 then long_mode_not_supported B L fuel c
    else do
      let c := c.set .si L.long_mode_supported_msg
      let c ← c.call (L.back .hasLongMode) (bios_print B fuel)
      .ok c.popa.ret

/-- `check_long_mode`. -/
def check_long_mode (c : Pc ω) : Outcome (Pc ω) := do
  let c := c.pusha
  let c ← c.call (L.back .cpuidSupport) (check_cpuid_support P B L fuel)
  let c ← c.call (L.back .withCpuid) (check_long_mode_with_cpuid P B L fuel)
  .ok c.popa.ret

end BootLoader.SecondStage
