/-
What the PCI scan visits.

`get_pci_device` returns after 64 rounds and writes nothing but the header
buffer and its stack slot, so the three bytes of the position are the
loops' own (`Located`). The rounds of each loop then count: `function_loop`
makes eight calls, `device_loop` 32 times that, and `bus_loop` 255 times
that, since it leaves when the incremented bus is 255. Bus 255 is never
visited (`kernel_scan_misses_bus`), whatever the configuration space.

The history after the loops is the lexicographic list of the positions
(`positions`): each loop's invariant says how much of it is there.
-/
import BootLoader.ThirdStage.Pci
import BootLoader.Lib.Words

namespace BootLoader.ThirdStage

open FlatMemory Mem Words

variable {l : PciLabels} {space : ConfigSpace} {s s₀ : Scan} {b d f k : Nat}
  {a : BitVec 64}

-- =========================================================== the positions

/-- The position with these numbers. -/
def position (b d f : Nat) : Position :=
  (BitVec.ofNat 8 b, BitVec.ofNat 8 d, BitVec.ofNat 8 f)

/-- The functions below `n` of a device, in order. -/
def functionsOf (b d n : Nat) : List Position :=
  (List.range n).map (position b d)

/-- The devices below `n` of a bus, each with its eight functions. -/
def devicesOf (b n : Nat) : List Position :=
  (List.range n).flatMap fun d => functionsOf b d 8

/-- The buses below `n`, each with its 32 devices. -/
def positions (n : Nat) : List Position :=
  (List.range n).flatMap fun b => devicesOf b 32

theorem functionsOf_succ (b d n : Nat) :
    functionsOf b d (n + 1) = functionsOf b d n ++ [position b d n] := by
  unfold functionsOf
  rw [List.range_succ, List.map_append, List.map_singleton]

theorem devicesOf_succ (b n : Nat) :
    devicesOf b (n + 1) = devicesOf b n ++ functionsOf b n 8 := by
  unfold devicesOf
  rw [List.range_succ, List.flatMap_append, List.flatMap_singleton]

theorem positions_succ (n : Nat) :
    positions (n + 1) = positions n ++ devicesOf n 32 := by
  unfold positions
  rw [List.range_succ, List.flatMap_append, List.flatMap_singleton]

/-- The first `n` buses come before the others. -/
theorem mem_positions {p : Position} {n : Nat} :
    p ∈ positions n ↔ ∃ b < n, ∃ d < 32, ∃ f < 8, p = position b d f := by
  simp only [positions, devicesOf, functionsOf, List.mem_flatMap,
    List.mem_range, List.mem_map, eq_comm]

-- ========================================================== get_pci_device

/-- `s` is `s₀` after `k` rounds of the configuration read: of the image
only the header buffer may differ. -/
structure Reading (l : PciLabels) (s₀ : Scan) (k : Nat) (s : Scan) :
    Prop where
  rsp : s.cpu.reg .rsp = s₀.cpu.reg .rsp
  rsi : s.cpu.reg .rsi = BitVec.ofNat 64 (4 * k)
  calls : s.calls = s₀.calls
  kept : ∀ a : BitVec 64, 0x10000 ≤ a.toNat →
    a.toNat < l.pci_header.toNat ∨ l.pci_header.toNat + 512 ≤ a.toNat →
    s.cpu.mem a = s₀.cpu.mem a

theorem outEax_cpu (s : Scan) : s.outEax.cpu = s.cpu := by
  unfold Scan.outEax
  split <;> rfl

theorem outEax_calls (s : Scan) : s.outEax.calls = s.calls := by
  unfold Scan.outEax
  split <;> rfl

/-- What a round does to the registers and the memory it keeps apart. -/
theorem pci_config_space_read_round_cpu (l : PciLabels)
    (space : ConfigSpace) (s : Scan) :
    let s' := pci_config_space_read_round l space s
    s'.cpu.reg .rsp = s.cpu.reg .rsp
      ∧ s'.cpu.reg .rsi = s.cpu.reg .rsi + 4#64
      ∧ s'.calls = s.calls
      ∧ ∃ v, s'.cpu.mem = (s.cpu.mem.write64 (s.cpu.reg .rsp - 8#64)
          (s.cpu.reg .rax)).write32 (l.pci_header + s.cpu.reg .rsi) v := by
  simp only [pci_config_space_read_round, Scan.run, Scan.inEax, outEax_cpu,
    outEax_calls, Cpu.push, Cpu.pop, Cpu.setLow8, Cpu.setLow16, Cpu.set_reg,
    Cpu.load64_reg, Cpu.store64_reg, Cpu.store32_reg, Cpu.set_mem,
    Cpu.load64_mem, Cpu.store64_mem, Cpu.store32_mem, reduceCtorEq, if_true,
    if_false]
  refine ⟨?_, trivial, trivial, _, rfl⟩
  exact BitVec.sub_add_cancel _ _

/-- One round of the configuration read. -/
theorem Reading.step (hs : StackOk s₀.cpu) (hk : k < 64)
    (h : Reading l s₀ k s) :
    Reading l s₀ (k + 1) (pci_config_space_read_round l space s) := by
  obtain ⟨hrsp, hrsi, hcalls, v, hmem⟩ :=
    pci_config_space_read_round_cpu l space s
  obtain ⟨hlo, hhi⟩ := hs
  have hheader := l.header_in
  unfold imageEnd at hheader
  have hsp : (s.cpu.reg .rsp - 8#64).toNat + 8 ≤ 0x10000 := by
    rw [h.rsp]
    simp only [BitVec.toNat_sub, BitVec.toNat_ofNat]
    omega
  have hslot : (l.pci_header + s.cpu.reg .rsi).toNat
      = l.pci_header.toNat + 4 * k := by
    rw [h.rsi]
    exact toNat_add_lit (by omega)
  refine ⟨hrsp.trans h.rsp, ?_, hcalls.trans h.calls, ?_⟩
  · rw [hrsi, h.rsi, ← BitVec.ofNat_add]
    rfl
  · intro a ha hout
    rw [hmem, ← h.kept a ha hout]
    have hheld : (s.cpu.mem.write64 (s.cpu.reg .rsp - 8#64)
        (s.cpu.reg .rax)) a = s.cpu.mem a :=
      write_apply_of_out (n := 8) _ _ (by omega) (by omega)
    rw [← hheld]
    exact write_apply_of_out (n := 4) _ _ (by omega) (by omega)

/-- The loop goes on up to the offset 0xFC. -/
theorem Reading.more (h : Reading l s₀ k s) (hk : k < 64) :
    pci_config_space_more s = true := by
  unfold pci_config_space_more
  rw [h.rsi, slt_lit (by rw [toNat_lit] <;> omega) (by omega),
    toNat_lit (by omega)]
  exact decide_eq_true (by omega)

/-- It leaves at the offset 0x100. -/
theorem Reading.last (h : Reading l s₀ 64 s) :
    pci_config_space_more s = false := by
  unfold pci_config_space_more
  rw [h.rsi]
  rfl

/-- The registers after the composition of the configuration address. -/
theorem get_pci_device_start_spec (l : PciLabels) (c : Cpu) :
    (get_pci_device_start l c).reg .rsp = c.reg .rsp
      ∧ (get_pci_device_start l c).reg .rsi = 0#64
      ∧ (get_pci_device_start l c).mem = c.mem := by
  simp only [get_pci_device_start, or_field, Cpu.setLow8, Cpu.set_reg,
    Cpu.reads_reg, Cpu.set_mem, Cpu.reads_mem, reduceCtorEq, if_true,
    if_false, and_self]

/-- `get_pci_device` returns, with what it keeps. -/
theorem get_pci_device_returns (space : ConfigSpace) (hs : StackOk s.cpu)
    {fuel : Nat} (hfuel : 64 ≤ fuel) : ∃ s', get_pci_device l space fuel s = some s'
      ∧ Reading l s 64 s' := by
  obtain ⟨hrsp, hrsi, hmem⟩ := get_pci_device_start_spec l s.cpu
  unfold get_pci_device
  exact Loop.finish_counted (Reading l s) (by omega)
    (fun k s' hk h => ⟨_, rfl, h.step hs hk⟩) (fun k s' _ hk h => h.more hk)
    (fun s' h => h.last) hfuel
    ⟨hrsp, hrsi, rfl, fun a _ _ => congrFun hmem a⟩

-- ============================================================ the position

/-- The scan is at this position. -/
structure Located (l : PciLabels) (b d f : Nat) (c : Cpu) : Prop where
  stack : StackOk c
  bus : c.mem l.bus = BitVec.ofNat 8 b
  device : c.mem l.device = BitVec.ofNat 8 d
  function : c.mem l.function = BitVec.ofNat 8 f

/-- A store to one byte is read back there and nowhere else. -/
theorem store8_apply (c : Cpu) (a a' : BitVec 64) (v : BitVec 8) :
    (c.store8 a v).mem a' = if a' = a then v else c.mem a' := by
  by_cases h : a' = a
  · rw [if_pos h, h]
    exact write8_self _ _ _
  · rw [if_neg h]
    have hne := mt BitVec.eq_of_toNat_eq h
    exact write_apply_of_out (n := 1) _ _ (by omega) (by omega)

theorem inc_byte_apply (c : Cpu) (a a' : BitVec 64) :
    (inc_byte a c).mem a' = if a' = a then c.mem a + 1#8 else c.mem a' :=
  store8_apply _ _ _ _

/-- The next function. -/
theorem Located.inc_function {c : Cpu} (h : Located l b d f c) :
    Located l b d (f + 1) (inc_byte l.function c) where
  stack := h.stack
  bus := by rw [inc_byte_apply, if_neg l.bus_function, h.bus]
  device := by rw [inc_byte_apply, if_neg l.device_function, h.device]
  function := by rw [inc_byte_apply, if_pos rfl, h.function, BitVec.ofNat_add]

/-- The next device, from its function 0. -/
theorem Located.next_device {c : Cpu} (h : Located l b d f c) :
    Located l b (d + 1) 0 ((inc_byte l.device c).store8 l.function 0#8) where
  stack := h.stack
  bus := by
    rw [store8_apply, if_neg l.bus_function, inc_byte_apply,
      if_neg l.bus_device, h.bus]
  device := by
    rw [store8_apply, if_neg l.device_function, inc_byte_apply, if_pos rfl,
      h.device, BitVec.ofNat_add]
  function := by rw [store8_apply, if_pos rfl]

/-- The next bus, from its device 0. -/
theorem Located.next_bus {c : Cpu} (h : Located l b d 0 c) :
    Located l (b + 1) 0 0 ((inc_byte l.bus c).store8 l.device 0#8) where
  stack := h.stack
  bus := by
    rw [store8_apply, if_neg l.bus_device, inc_byte_apply, if_pos rfl, h.bus,
      BitVec.ofNat_add]
  device := by rw [store8_apply, if_pos rfl]
  function := by
    rw [store8_apply, if_neg (Ne.symm l.device_function), inc_byte_apply,
      if_neg (Ne.symm l.bus_function), h.function]

/-- The configuration read stays at its position. -/
theorem Reading.located (hr : Reading l s₀ k s) (h : Located l b d f s₀.cpu) :
    Located l b d f s.cpu := by
  have hcell : ∀ a ∈ [l.bus, l.device, l.function], 0x10000 ≤ a.toNat →
      s.cpu.mem a = s₀.cpu.mem a :=
    fun a ha hlo => hr.kept a hlo (l.header_apart a ha)
  refine ⟨?_, ?_, ?_, ?_⟩
  · unfold StackOk
    rw [hr.rsp]
    exact h.stack
  · rw [hcell l.bus (by simp) l.bus_in.1, h.bus]
  · rw [hcell l.device (by simp) l.device_in.1, h.device]
  · rw [hcell l.function (by simp) l.function_in.1, h.function]

/-- A call at a position. -/
theorem call_get_pci_device_spec (h : Located l b d f s.cpu) {fuel : Nat}
    (hfuel : 64 ≤ fuel) :
    ∃ s', call_get_pci_device l space fuel s = some s'
      ∧ Located l b d f s'.cpu ∧ s'.calls = s.calls ++ [position b d f] := by
  obtain ⟨s', hs', hr⟩ := get_pci_device_returns (l := l) space
    (s := { s with
      calls := s.calls ++ [(s.cpu.mem l.bus, s.cpu.mem l.device,
        s.cpu.mem l.function)] }) h.stack hfuel
  refine ⟨s', hs', hr.located h, ?_⟩
  rw [hr.calls, h.bus, h.device, h.function]
  rfl

-- =============================================================== the loops

/-- A counter below the bound of its loop goes on. -/
theorem byte_differs_of_lt {n : Nat} (hn : n < 256) (hk : k < n)
    (ha : s.cpu.mem a = BitVec.ofNat 8 k) :
    byte_differs a (BitVec.ofNat 8 n) s = true := by
  unfold byte_differs
  rw [ha]
  refine bne_iff_ne.2 fun heq => ?_
  have hnat := congrArg BitVec.toNat heq
  simp only [BitVec.toNat_ofNat] at hnat
  omega

/-- A counter at the bound stops. -/
theorem byte_differs_self {n : Nat}
    (ha : s.cpu.mem a = BitVec.ofNat 8 n) :
    byte_differs a (BitVec.ofNat 8 n) s = false := by
  unfold byte_differs
  rw [ha]
  exact bne_self_eq_false _

/-- The eight functions of a device. -/
theorem function_loop_spec (space : ConfigSpace) (h : Located l b d 0 s.cpu)
    {fuel : Nat} (hfuel : 64 ≤ fuel) : ∃ s', function_loop l space fuel s = some s'
      ∧ Located l b d 8 s'.cpu ∧ s'.calls = s.calls ++ functionsOf b d 8 := by
  unfold function_loop
  refine Loop.finish_counted (n := 8)
    (fun f (s' : Scan) => Located l b d f s'.cpu
      ∧ s'.calls = s.calls ++ functionsOf b d f)
    (by omega) ?_ ?_ ?_ (by omega) ⟨h, (List.append_nil _).symm⟩
  · rintro f s' - ⟨hat, hcalls⟩
    obtain ⟨s'', hs'', hat'', hcalls''⟩ := call_get_pci_device_spec hat hfuel
    refine ⟨s''.run (inc_byte l.function), ?_, hat''.inc_function, ?_⟩
    · unfold function_loop_round
      rw [hs'']
      rfl
    · show s''.calls = _
      rw [hcalls'', hcalls, functionsOf_succ, List.append_assoc]
  · rintro f s' - hf ⟨hat, -⟩
    exact byte_differs_of_lt (n := 8) (by omega) hf hat.function
  · rintro s' ⟨hat, -⟩
    exact byte_differs_self (n := 8) hat.function

/-- The 32 devices of a bus. -/
theorem device_loop_spec (space : ConfigSpace) (h : Located l b 0 0 s.cpu)
    {fuel : Nat} (hfuel : 64 ≤ fuel) : ∃ s', device_loop l space fuel s = some s'
      ∧ Located l b 32 0 s'.cpu ∧ s'.calls = s.calls ++ devicesOf b 32 := by
  unfold device_loop
  refine Loop.finish_counted (n := 32)
    (fun d (s' : Scan) => Located l b d 0 s'.cpu
      ∧ s'.calls = s.calls ++ devicesOf b d)
    (by omega) ?_ ?_ ?_ (by omega) ⟨h, (List.append_nil _).symm⟩
  · rintro d s' - ⟨hat, hcalls⟩
    obtain ⟨s'', hs'', hat'', hcalls''⟩ :=
      function_loop_spec space hat hfuel
    refine ⟨(s''.run (inc_byte l.device)).run
      fun c => c.store8 l.function 0#8, ?_, hat''.next_device, ?_⟩
    · unfold device_loop_round
      rw [hs'']
      rfl
    · show s''.calls = _
      rw [hcalls'', hcalls, devicesOf_succ, List.append_assoc]
  · rintro d s' - hd ⟨hat, -⟩
    exact byte_differs_of_lt (n := 32) (by omega) hd hat.device
  · rintro s' ⟨hat, -⟩
    exact byte_differs_self (n := 32) hat.device

/-- The buses the scan visits. -/
theorem bus_loop_spec (space : ConfigSpace) (h : Located l 0 0 0 s.cpu)
    {fuel : Nat} (hfuel : 255 ≤ fuel) : ∃ s', bus_loop l space fuel s = some s'
      ∧ Located l 255 0 0 s'.cpu ∧ s'.calls = s.calls ++ positions 255 := by
  unfold bus_loop
  refine Loop.finish_counted (n := 255)
    (fun b (s' : Scan) => Located l b 0 0 s'.cpu
      ∧ s'.calls = s.calls ++ positions b)
    (by omega) ?_ ?_ ?_ hfuel ⟨h, (List.append_nil _).symm⟩
  · rintro b s' - ⟨hat, hcalls⟩
    obtain ⟨s'', hs'', hat'', hcalls''⟩ :=
      device_loop_spec space hat (show 64 ≤ fuel by omega)
    refine ⟨(s''.run (inc_byte l.bus)).run
      fun c => c.store8 l.device 0#8, ?_, hat''.next_bus, ?_⟩
    · unfold bus_loop_round
      rw [hs'']
      rfl
    · show s''.calls = _
      rw [hcalls'', hcalls, positions_succ, List.append_assoc]
  · rintro b s' - hb ⟨hat, -⟩
    exact byte_differs_of_lt (n := 255) (by omega) hb hat.bus
  · rintro s' ⟨hat, -⟩
    exact byte_differs_self (n := 255) hat.bus

-- ============================================================= the result

/-- The kernel at the scan: on its stack, with the position's bytes as the
image declares them. -/
structure AtKernel (l : PciLabels) (c : Cpu) : Prop where
  stack : StackOk c
  bus : c.mem l.bus = 0#8
  device : c.mem l.device = 0#8
  function : c.mem l.function = 0#8

/-- The scan ends, and its calls are the positions of all 256 buses in
lexicographic order. -/
def Complete (l : PciLabels) (space : ConfigSpace) (c : Cpu) : Prop :=
  ∃ s, ScanEnds l space c s ∧ s.calls = positions 256

/-- More rounds do not change a result. -/
theorem kernel_scan_mono {c : Cpu} {fuel fuel' : Nat} (hle : fuel ≤ fuel')
    (h : kernel_scan l space fuel c = some s) :
    kernel_scan l space fuel' c = some s := by
  have hdevice : ∀ s s', call_get_pci_device l space fuel s = some s' →
      call_get_pci_device l space fuel' s = some s' :=
    fun s s' => Loop.finish_mono (fun _ _ hr => hr) hle
  have hfunction : ∀ s s', function_loop_round l space fuel s = some s' →
      function_loop_round l space fuel' s = some s' := by
    intro s s' hr
    obtain ⟨r, hcall, hr⟩ := Option.bind_eq_some_iff.1 hr
    exact Option.bind_eq_some_iff.2 ⟨r, hdevice s r hcall, hr⟩
  have hdevices : ∀ s s', device_loop_round l space fuel s = some s' →
      device_loop_round l space fuel' s = some s' := by
    intro s s' hr
    obtain ⟨r, hloop, hr⟩ := Option.bind_eq_some_iff.1 hr
    exact Option.bind_eq_some_iff.2
      ⟨r, Loop.finish_mono hfunction hle hloop, hr⟩
  refine Loop.finish_mono (fun s s' hr => ?_) hle h
  obtain ⟨r, hloop, hr⟩ := Option.bind_eq_some_iff.1 hr
  exact Option.bind_eq_some_iff.2 ⟨r, Loop.finish_mono hdevices hle hloop, hr⟩

/-- The scan ends with buses 0 to 254 visited. -/
theorem kernel_scan_ends (space : ConfigSpace) {c : Cpu} (h : AtKernel l c) :
    ∃ s, ScanEnds l space c s ∧ s.calls = positions 255 := by
  have hat : Located l 0 0 0 (⟨c, 0#32, []⟩ : Scan).cpu :=
    ⟨h.stack, h.bus, h.device, h.function⟩
  obtain ⟨s, hs, -, hcalls⟩ := bus_loop_spec space hat
    (Nat.le_refl 255)
  exact ⟨s, ⟨255, fun fuel hle => kernel_scan_mono hle hs⟩, hcalls⟩

/-- The scan has one end. -/
theorem ScanEnds.unique {c : Cpu} {s s' : Scan} (h : ScanEnds l space c s)
    (h' : ScanEnds l space c s') : s = s' := by
  obtain ⟨n, hn⟩ := h
  obtain ⟨n', hn'⟩ := h'
  have hs := hn (max n n') (Nat.le_max_left n n')
  rw [hn' (max n n') (Nat.le_max_right n n')] at hs
  exact (Option.some.inj hs).symm

/-- Bus 255 is not among the positions before it. -/
theorem bus_255_not_visited (p : Position) (hp : p ∈ positions 255) :
    p.1 ≠ 255#8 := by
  obtain ⟨b, hb, d, -, f, -, rfl⟩ := mem_positions.1 hp
  intro heq
  have hnat := congrArg BitVec.toNat heq
  simp only [position, BitVec.toNat_ofNat] at hnat
  omega

theorem positions_incomplete : positions 255 ≠ positions 256 := by
  intro heq
  have hmem : position 255 0 0 ∈ positions 256 :=
    mem_positions.2 ⟨255, by omega, 0, by omega, 0, by omega, rfl⟩
  rw [← heq] at hmem
  exact bus_255_not_visited _ hmem rfl

theorem not_complete (space : ConfigSpace) {c : Cpu} (h : AtKernel l c) :
    ¬ Complete l space c := by
  rintro ⟨s, hs, hcalls⟩
  obtain ⟨s', hs', hcalls'⟩ := kernel_scan_ends space h
  rw [hs.unique hs', hcalls'] at hcalls
  exact positions_incomplete hcalls

/-- For every configuration space the scan ends having visited buses 0 to
254 in order and bus 255 not at all, so it is never complete. -/
theorem kernel_scan_misses_bus (l : PciLabels) (space : ConfigSpace)
    (c : Cpu) (h : AtKernel l c) :
    (∃ s, ScanEnds l space c s ∧ s.calls = positions 255
      ∧ ∀ p ∈ s.calls, p.1 ≠ 255#8) ∧ ¬ Complete l space c := by
  obtain ⟨s, hs, hcalls⟩ := kernel_scan_ends space h
  refine ⟨⟨s, hs, hcalls, ?_⟩, not_complete space h⟩
  rw [hcalls]
  exact bus_255_not_visited

/-- The kernel with its stack and a cleared image. -/
def scanCpu : Cpu := ⟨fun _ => 0xB000#64, fun _ => 0#8, []⟩

theorem atKernel_scanCpu : AtKernel assembledPci scanCpu :=
  ⟨⟨by decide, by decide⟩, rfl, rfl, rfl⟩

/-- The instance where no device answers. -/
theorem kernel_scan_misses_bus_sample :
    (∃ s, ScanEnds assembledPci (fun _ => 0xFFFFFFFF#32) scanCpu s
        ∧ s.calls = positions 255 ∧ ∀ p ∈ s.calls, p.1 ≠ 255#8)
      ∧ ¬ Complete assembledPci (fun _ => 0xFFFFFFFF#32) scanCpu :=
  kernel_scan_misses_bus _ _ _ atKernel_scanCpu

/-- No device answers, and bus 255 is not asked. -/
theorem kernel_scan_incomplete : ¬ ∀ (l : PciLabels) (space : ConfigSpace)
    (c : Cpu), AtKernel l c → Complete l space c :=
  fun h => not_complete (fun _ => 0xFFFFFFFF#32) atKernel_scanCpu
    (h assembledPci _ scanCpu atKernel_scanCpu)

end BootLoader.ThirdStage
