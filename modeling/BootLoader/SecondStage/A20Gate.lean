/-
`check_a20_gate` and `enable_a20` of `second_stage/a20_gate.asm`.

The two routines jump to each other: `je enable_a20` leaves the first in
the middle of its register save, and `jmp check_a20_gate` enters it again
from the top, `pusha` included. `check_a20_gate` takes the number of times
it may be entered.
-/
import BootLoader.FirstStage.BiosPrint

namespace BootLoader.SecondStage

open RealMode FirstStage

variable {ω : Type _}

/-- The calls of `a20_gate.asm`. -/
inductive A20Call
  | keyboard | unsupported | unknown | enabled
  | enableKeyboard | enableUnsupported | enableUnknown
  deriving DecidableEq, Repr

/-- The labels `a20_gate.asm` uses, and the addresses of the instructions
after its calls. -/
structure A20 where
  keyboard_controller_error_msg : BitVec 16
  a20_function_not_supported_msg : BitVec 16
  unknown_a20_error : BitVec 16
  a20_enabled_msg : BitVec 16
  back : A20Call → BitVec 16

variable (B : Bios ω) (L : A20) (fuel : Nat)

/-- `mov si, msg`, `call bios_print`, `jmp hang`. -/
def a20_print_hang (msg back : BitVec 16) (c : Pc ω) : Outcome (Pc ω) := do
  let _ ← (c.set .si msg).call back (bios_print B fuel)
  .error .hang

/-- `.error` of `check_a20_gate`. -/
def check_a20_error (c : Pc ω) : Outcome (Pc ω) :=
  if c.high8 .ax = 0x01#8 then
    a20_print_hang B fuel L.keyboard_controller_error_msg
      (L.back .keyboard) c
  else if c.high8 .ax = 0x86#8 then
    a20_print_hang B fuel L.a20_function_not_supported_msg
      (L.back .unsupported) c
  else a20_print_hang B fuel L.unknown_a20_error (L.back .unknown) c

/-- `.error` of `enable_a20`, the same messages again. -/
def enable_a20_error (c : Pc ω) : Outcome (Pc ω) :=
  if c.high8 .ax = 0x01#8 then
    a20_print_hang B fuel L.keyboard_controller_error_msg
      (L.back .enableKeyboard) c
  else if c.high8 .ax = 0x86#8 then
    a20_print_hang B fuel L.a20_function_not_supported_msg
      (L.back .enableUnsupported) c
  else a20_print_hang B fuel L.unknown_a20_error (L.back .enableUnknown) c

/-- `enable_a20`, with `again` for its jump to `check_a20_gate`. -/
def enable_a20 (again : Pc ω → Outcome (Pc ω)) (c : Pc ω) :
    Outcome (Pc ω) :=
  let c := c.set .ax 0x2401#16
  let c := c.int B 0x15#8
  if c.carry then enable_a20_error B L fuel c else again c

/-- `.skip`. -/
def a20_skip (c : Pc ω) : Outcome (Pc ω) := do
  let c := c.set .si L.a20_enabled_msg
  let c ← c.call (L.back .enabled) (bios_print B fuel)
  .ok c.popa.ret

/-- `check_a20_gate`, entered at most the given number of times. -/
def check_a20_gate : Nat → Pc ω → Outcome (Pc ω)
  | 0, _ => .error .unfinished
  | rounds + 1, c =>
      let c := c.pusha
      let c := c.set .ax 0x2402#16
      let c := c.int B 0x15#8
      if c.carry then check_a20_error B L fuel c
      else if c.low8 .ax = 0#8 then
        enable_a20 B L fuel (check_a20_gate rounds) c
      else a20_skip B L fuel c

end BootLoader.SecondStage
