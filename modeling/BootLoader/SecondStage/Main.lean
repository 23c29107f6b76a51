/-
The second stage: `second_stage.asm` from its first instruction to the jump
to the third.

Main is three parts of plain real-mode code, between the calls that the
user is asked to press a key for, and the end in
`BootLoader.SecondStage.LongMode`. Its strings are wherever the assembler
puts them; of the greeting only that it is a string matters.
-/
import BootLoader.FirstStage.Boot
import BootLoader.SecondStage.A20Gate
import BootLoader.SecondStage.LongMode
import BootLoader.SecondStage.MemoryScanner
import BootLoader.SecondStage.PageTable

namespace BootLoader.SecondStage

open RealMode FirstStage

variable {ω : Type _}

-- ================================================================ labels

/-- The calls of main. -/
inductive SecondCall
  | cls | greeting | greetingKey | a20Off | a20Press | a20Key | a20
  | modePress | modeKey | mode | mapPress | mapKey | scan | scanKey
  | printPress | print | tableKey | table | pic | idt | video | switch
  deriving DecidableEq, Repr

/-- The labels of main's strings and of the included files, and the
addresses of the instructions after main's calls. -/
structure SecondLabels where
  greeting_msg : BitVec 16
  a20_not_enabled_msg : BitVec 16
  press_any_key : BitVec 16
  a20 : A20
  mode : LongModeLabels
  map : MapLabels
  switch : SwitchLabels
  after : SecondCall → BitVec 16

variable (P : Processor) (B : Bios ω) (L : SecondLabels)
  (fuel rounds : Nat)

-- ================================================================== main

/-- `mov si, msg`, `call bios_print`. -/
def say (call : SecondCall) (msg : BitVec 16) (c : Pc ω) :
    Outcome (Pc ω) :=
  (c.set .si msg).call (L.after call) (bios_print B fuel)

def key (call : SecondCall) (c : Pc ω) : Outcome (Pc ω) :=
  c.call (L.after call) (get_key_stroke B)

/-- Main up to `call check_a20_gate`. -/
def second_stage_greets (c : Pc ω) : Outcome (Pc ω) := do
  let c ← c.call (L.after .cls) (bios_cls B)
  let c ← say B L fuel .greeting L.greeting_msg c
  let c ← key B L .greetingKey c
  let c ← say B L fuel .a20Off L.a20_not_enabled_msg c
  let c ← say B L fuel .a20Press L.press_any_key c
  key B L .a20Key c

/-- From there to `call memory_scanner`. -/
def second_stage_checks (c : Pc ω) : Outcome (Pc ω) := do
  let c ← c.call (L.after .a20) (check_a20_gate B L.a20 fuel rounds)
  let c ← say B L fuel .modePress L.press_any_key c
  let c ← key B L .modeKey c
  let c ← c.call (L.after .mode) (check_long_mode P B L.mode fuel)
  let c ← say B L fuel .mapPress L.press_any_key c
  key B L .mapKey c

/-- From there to `call disable_pic`. -/
def second_stage_maps (c : Pc ω) : Outcome (Pc ω) := do
  let c ← c.call (L.after .scan) (memory_scanner B L.map fuel rounds)
  let c ← key B L .scanKey c
  let c ← say B L fuel .printPress L.press_any_key c
  let c ← c.call (L.after .print) (print_memory_regions B L.map fuel rounds)
  let c ← key B L .tableKey c
  c.call (L.after .table) (build_page_table fuel)

/-- `second_stage`, up to the jump. -/
def second_stage (s : Machine ω) : Result (Entered ω) := do
  let s ← s.run (second_stage_greets B L fuel)
  let s ← s.run (second_stage_checks P B L fuel rounds)
  let s ← s.run (second_stage_maps B L fuel rounds)
  let s ← s.call (L.after .pic) (disable_pic B L.switch fuel)
  let s ← s.call (L.after .idt) (load_idt_descriptor L.switch)
  let s ← s.call (L.after .video) (video_cls_16 fuel)
  let e ← switch_to_long_mode P L.switch
    (s.step fun c => c.push (L.after .switch))
  lm64 e

end BootLoader.SecondStage
