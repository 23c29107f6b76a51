/-
What the printing routines print, and what they leave alone.

Each routine has one contract, `Printed`: it returns, it has typed a known
text, and outside the BIOS's own bytes and its stretch of the stack no byte
has changed. `bios_print` types the string at DS:SI (`bios_print_spec`),
the hexadecimal printer the eight digits of EDI (`bios_print_hexa_spec`).

The upper halves of the registers are where the routines differ: `pusha`
saves 16 bits, so what a routine does to EBX or ESI above those stays.
-/
import BootLoader.FirstStage.BiosPrint

namespace BootLoader.FirstStage

open FlatMemory Segment RealMode Pc

variable {ω : Type _} {B : Bios ω} {own : BitVec 64 → Prop} {depth : Nat}
  {c d : Pc ω} {str : List (BitVec 8)}

-- ============================================================== the text

/-- A string read again where its bytes are the same. -/
theorem Text.congr {m m' : Mem} {s o : BitVec 16} (h : Text m s o str)
    (hm : ∀ k ≤ str.length, m' (linear s (o + BitVec.ofNat 16 k))
      = m (linear s (o + BitVec.ofNat 16 k))) : Text m' s o str := by
  induction str generalizing o with
  | nil =>
      have h0 := hm 0 (Nat.le_refl 0)
      rw [BitVec.add_zero] at h0
      exact h0.trans h
  | cons ch rest ih =>
      obtain ⟨hch, hne, hrest⟩ := h
      have h0 := hm 0 (Nat.zero_le _)
      rw [BitVec.add_zero] at h0
      refine ⟨h0.trans hch, hne, ih hrest fun k hk => ?_⟩
      have hstep : o + 1#16 + BitVec.ofNat 16 k = o + BitVec.ofNat 16 (k + 1) := by
        rw [BitVec.add_assoc, BitVec.ofNat_add, BitVec.add_comm 1#16]
      rw [hstep]
      exact hm (k + 1) (by rw [List.length_cons]; omega)

/-- A string spelled out byte by byte. -/
theorem text_of_bytes {m : Mem} {s o : BitVec 16} (hz : 0#8 ∉ str)
    (h : ∀ k ≤ str.length, m (linear s (o + BitVec.ofNat 16 k))
      = (str ++ [0#8]).getD k 0#8) : Text m s o str := by
  induction str generalizing o with
  | nil =>
      have h0 := h 0 (Nat.le_refl 0)
      rw [BitVec.add_zero] at h0
      exact h0
  | cons ch rest ih =>
      rw [List.mem_cons, not_or] at hz
      have h0 := h 0 (Nat.zero_le _)
      rw [BitVec.add_zero] at h0
      refine ⟨h0, Ne.symm hz.1, ih hz.2 fun k hk => ?_⟩
      have hstep : o + 1#16 + BitVec.ofNat 16 k = o + BitVec.ofNat 16 (k + 1) := by
        rw [BitVec.add_assoc, BitVec.ofNat_add, BitVec.add_comm 1#16]
      rw [hstep]
      exact h (k + 1) (by rw [List.length_cons]; omega)

theorem typed_int {n : BitVec 8} : typed (c.int B n)
    = typed c ++ (Call.typed ⟨n, c.reg, c.high, c.seg⟩).toList := by
  unfold typed
  rw [int_issued, List.filterMap_append]
  rfl

-- ========================================================= the print loop

/-- What a stretch of printing leaves, of a machine still inside it. -/
structure Typing (own : BitVec 64 → Prop) (depth : Nat)
    (str : List (BitVec 8)) (c d : Pc ω) : Prop where
  reg : ∀ r, r ≠ .ax → r ≠ .si → d.reg r = c.reg r
  high : ∀ r, r ≠ .ax → d.high r = c.high r
  seg : d.seg = c.seg
  mem : c.Spares own depth d
  typed : typed d = typed c ++ str
  loads : ∀ x ∈ d.loads, x ∈ c.loads ∨ ∃ k ≤ str.length,
    x = ⟨linear (c.seg .ds) (c.reg .si + BitVec.ofNat 16 k), 1⟩

/-- The machine when the next character has been typed. -/
theorem print_step (hB : Teletype B own depth) (c : Pc ω) :
    let d := (((c.set .ax 0#16).lodsb).setHigh8 .ax 0x0E#8).int B 0x10#8
    d.reg .si = c.reg .si + 1#16
      ∧ Typing own depth [c.byte .ds (c.reg .si)] c d := by
  intro d
  have hquiet := hB (((c.set .ax 0#16).lodsb).setHigh8 .ax 0x0E#8) (by
    simp only [high8, setHigh8, set_reg, if_true]
    exact BitVec.extractLsb'_append_eq_left)
  refine ⟨(hquiet.reg .si (by decide)).trans rfl, ?_, ?_, ?_, ?_, ?_, ?_⟩
  · intro r hax hsi
    refine (hquiet.reg r hax).trans ?_
    simp [lodsb, hax, hsi]
  · exact fun r hr => hquiet.high r hr
  · exact hquiet.seg
  · exact fun b hb => hquiet.mem b (hb.congr rfl rfl)
  · rw [typed_int]
    have hchar : (Call.typed ⟨0x10#8,
        (((c.set .ax 0#16).lodsb).setHigh8 .ax 0x0E#8).reg, c.high, c.seg⟩)
        = some (c.byte .ds (c.reg .si)) := by
      simp only [Call.typed, setHigh8, lodsb, setLow8, set_reg, if_true,
        reduceCtorEq, if_false, BitVec.extractLsb'_append_eq_left,
        BitVec.extractLsb'_append_eq_right, and_self]
      rfl
    exact congrArg (fun x => typed c ++ Option.toList x) hchar
  · intro x hx
    have hx' : x ∈ c.loads ++ [⟨linear (c.seg .ds) (c.reg .si), 1⟩] := hx
    rcases List.mem_append.1 hx' with hx' | hx'
    · exact Or.inl hx'
    · refine Or.inr ⟨0, Nat.zero_le _, ?_⟩
      rw [BitVec.add_zero]
      exact List.mem_singleton.1 hx'

theorem print_loop_spec (hB : Teletype B own depth) :
    ∀ (str : List (BitVec 8)) (fuel : Nat) (c : Pc ω), str.length < fuel →
    Text c.mem (c.seg .ds) (c.reg .si) str →
    (∀ k ≤ str.length, c.Fixed own depth
      (linear (c.seg .ds) (c.reg .si + BitVec.ofNat 16 k))) →
    ∃ d, print_loop B fuel c = .ok d ∧ Typing own depth str c d := by
  intro str
  induction str with
  | nil =>
      intro fuel c hfuel htext _
      obtain ⟨fuel, rfl⟩ : ∃ f, fuel = f + 1 := ⟨fuel - 1, by omega⟩
      have hzero : ((c.set .ax 0#16).lodsb).low8 .ax = 0#8 := by
        simp only [low8, lodsb, setLow8, set_reg, if_true, reduceCtorEq,
          if_false]
        exact BitVec.extractLsb'_append_eq_right.trans htext
      refine ⟨(c.set .ax 0#16).lodsb, ?_, ?_, ?_, rfl, fun _ _ => rfl, ?_, ?_⟩
      · simp only [print_loop, hzero, if_true]
      · intro r hax hsi
        simp [lodsb, hax, hsi]
      · exact fun _ _ => rfl
      · exact (List.append_nil _).symm
      · intro x hx
        have hx' : x ∈ c.loads ++ [⟨linear (c.seg .ds) (c.reg .si), 1⟩] := hx
        rcases List.mem_append.1 hx' with hx' | hx'
        · exact Or.inl hx'
        · refine Or.inr ⟨0, Nat.zero_le _, ?_⟩
          rw [BitVec.add_zero]
          exact List.mem_singleton.1 hx'
  | cons ch rest ih =>
      intro fuel c hfuel htext hfix
      obtain ⟨fuel, rfl⟩ : ∃ f, fuel = f + 1 := ⟨fuel - 1, by omega⟩
      obtain ⟨hch, hne, hrest⟩ := htext
      rw [List.length_cons] at hfuel hfix
      have hgo : ((c.set .ax 0#16).lodsb).low8 .ax ≠ 0#8 := by
        simp only [low8, lodsb, setLow8, set_reg, if_true, reduceCtorEq,
          if_false, BitVec.extractLsb'_append_eq_right]
        exact fun heq => hne (hch.symm.trans heq)
      have hround : print_loop B (fuel + 1) c = print_loop B fuel
          ((((c.set .ax 0#16).lodsb).setHigh8 .ax 0x0E#8).int B 0x10#8) := by
        simp only [print_loop, if_neg hgo]
      obtain ⟨hsi, hstep⟩ := print_step hB c
      rw [hround]
      generalize (((c.set .ax 0#16).lodsb).setHigh8 .ax 0x0E#8).int B 0x10#8
        = c' at *
      have hoff : ∀ k : Nat, c'.reg .si + BitVec.ofNat 16 k
          = c.reg .si + BitVec.ofNat 16 (k + 1) := by
        intro k
        rw [hsi, BitVec.add_assoc, BitVec.ofNat_add, BitVec.add_comm 1#16]
      have hsp := hstep.reg .sp (by decide) (by decide)
      have hss := congrFun hstep.seg .ss
      obtain ⟨d, hd, htyping⟩ := ih fuel c' (by omega)
        (by
          rw [hstep.seg, hsi]
          refine hrest.congr fun k hk => hstep.mem _ ?_
          rw [← hsi, hoff]
          exact hfix (k + 1) (by omega))
        (by
          intro k hk
          rw [hstep.seg, hoff]
          exact (hfix (k + 1) (by omega)).congr hss hsp)
      refine ⟨d, hd, ?_, ?_, ?_, ?_, ?_, ?_⟩
      · exact fun r h1 h2 => (htyping.reg r h1 h2).trans (hstep.reg r h1 h2)
      · exact fun r hr => (htyping.high r hr).trans (hstep.high r hr)
      · exact htyping.seg.trans hstep.seg
      · exact hstep.mem.trans htyping.mem hss hsp
      · rw [htyping.typed, hstep.typed, List.append_assoc]
        show _ ++ (c.byte .ds (c.reg .si) :: rest) = _
        rw [show c.byte .ds (c.reg .si) = ch from hch]
      · intro x hx
        rcases htyping.loads x hx with hx | ⟨k, hk, rfl⟩
        · rcases hstep.loads x hx with hx | ⟨k, hk, rfl⟩
          · exact Or.inl hx
          · exact Or.inr ⟨k, by rw [List.length_cons]; simp at hk; omega, rfl⟩
        · refine Or.inr ⟨k + 1, by rw [List.length_cons]; omega, ?_⟩
          rw [hstep.seg, hoff]

/-- The same for any string at all, of a loop that ends. -/
theorem print_loop_frame (hB : Teletype B own depth) :
    ∀ (fuel : Nat) (c d : Pc ω), print_loop B fuel c = .ok d →
    d.seg = c.seg ∧ d.reg .sp = c.reg .sp ∧ c.Spares own depth d := by
  intro fuel
  induction fuel with
  | zero =>
      intro c d h
      cases h
  | succ fuel ih =>
      intro c d h
      simp only [print_loop] at h
      split at h
      · cases h
        exact ⟨rfl, rfl, fun _ _ => rfl⟩
      · obtain ⟨-, hstep⟩ := print_step hB c
        obtain ⟨hseg, hsp, hmem⟩ := ih _ d h
        have hsp' := hstep.reg .sp (by decide) (by decide)
        refine ⟨hseg.trans hstep.seg, hsp.trans hsp', ?_⟩
        exact hstep.mem.trans hmem (congrFun hstep.seg .ss) hsp'

-- ========================================================= bios_print

/-- What a printing routine does beside coming back: the upper halves it
leaves alone, the text, and where it has read. -/
structure Printed (str : List (BitVec 8)) (halves : Gpr → Prop)
    (area : Load → Prop) (c d : Pc ω) : Prop where
  high : ∀ r, halves r → d.high r = c.high r
  seg : d.seg = c.seg
  typed : typed d = typed c ++ str
  loads : ∀ x ∈ d.loads, x ∈ c.loads ∨ area x

theorem Printed.trans {e : Pc ω} {str' : List (BitVec 8)}
    {halves : Gpr → Prop} {area : Load → Prop}
    (h : Printed str halves area c d) (h' : Printed str' halves area d e) :
    Printed (str ++ str') halves area c e := by
  refine ⟨?_, h'.seg.trans h.seg, ?_, ?_⟩
  · exact fun r hr => (h'.high r hr).trans (h.high r hr)
  · rw [h'.typed, h.typed, List.append_assoc]
  · intro x hx
    rcases h'.loads x hx with hx | hx
    · exact h.loads x hx
    · exact Or.inr hx

theorem Printed.mono {halves halves' : Gpr → Prop} {area area' : Load → Prop}
    (h : Printed str halves area c d) (hh : ∀ r, halves' r → halves r)
    (ha : ∀ x, area x → area' x) : Printed str halves' area' c d :=
  ⟨fun r hr => h.high r (hh r hr), h.seg, h.typed,
    fun x hx => (h.loads x hx).imp_right (ha x)⟩

/-- A push prints nothing. -/
theorem Printed.of_push {halves : Gpr → Prop} {area : Load → Prop}
    {v : BitVec 16} (h : Printed str halves area (c.push v) d) :
    Printed str halves area c d :=
  ⟨h.high, h.seg, h.typed, h.loads⟩

/-- The bytes of a string of `n` characters at `s:o`, and its zero. -/
def InString (s o : BitVec 16) (n : Nat) (x : Load) : Prop :=
  ∃ k ≤ n, x = ⟨linear s (o + BitVec.ofNat 16 k), 1⟩

/-- Bytes at DS:`o` that stay as they are: there, and nobody else's to
change. -/
structure Lasting (own : BitVec 64 → Prop) (n : Nat) (c : Pc ω)
    (o : BitVec 16) (bytes : List (BitVec 8)) : Prop where
  there : ∀ k < bytes.length,
    c.mem (linear (c.seg .ds) (o + BitVec.ofNat 16 k)) = bytes.getD k 0#8
  fixed : ∀ k < bytes.length,
    c.Fixed own n (linear (c.seg .ds) (o + BitVec.ofNat 16 k))

/-- They last from one state to the next. -/
theorem Lasting.next {n : Nat} {o : BitVec 16} (h : Lasting own n c o str)
    (hmem : c.Spares own n d) (hds : d.seg .ds = c.seg .ds)
    (hss : d.seg .ss = c.seg .ss) (hsp : d.reg .sp = c.reg .sp) :
    Lasting own n d o str := by
  refine ⟨fun k hk => ?_, fun k hk => ?_⟩
  · rw [hds, hmem _ (h.fixed k hk)]
    exact h.there k hk
  · rw [hds]
    exact (h.fixed k hk).congr hss hsp

/-- The same bytes seen from `j` bytes further down the stack. -/
theorem Lasting.below {n j : Nat} {o : BitVec 16}
    (h : Lasting own (n + j) c o str) (hds : d.seg .ds = c.seg .ds)
    (hss : d.seg .ss = c.seg .ss)
    (hsp : d.reg .sp = c.reg .sp - BitVec.ofNat 16 j)
    (hmem : ∀ b, ¬ Under (c.seg .ss) (c.reg .sp) j b → d.mem b = c.mem b) :
    Lasting own n d o str := by
  refine ⟨fun k hk => ?_, fun k hk => ?_⟩
  · rw [hds, hmem _ fun hu => (h.fixed k hk).2 (hu.mono (Nat.le_add_left j n))]
    exact h.there k hk
  · rw [hds]
    exact (h.fixed k hk).below hss hsp

theorem Lasting.mono {n k : Nat} {o : BitVec 16} (h : Lasting own n c o str)
    (hk : k ≤ n) : Lasting own k c o str :=
  ⟨h.there, fun i hi => (h.fixed i hi).mono hk⟩

/-- A string among the lasting bytes. -/
theorem Lasting.text {n : Nat} {o : BitVec 16}
    (h : Lasting own n c o (str ++ [0#8])) (hz : 0#8 ∉ str) :
    Text c.mem (c.seg .ds) o str := by
  refine text_of_bytes hz fun k hk => ?_
  exact h.there k (by rw [List.length_append, List.length_singleton]; omega)

theorem Lasting.fixed_le {n : Nat} {o : BitVec 16}
    (h : Lasting own n c o (str ++ [0#8])) : ∀ k ≤ str.length,
    c.Fixed own n (linear (c.seg .ds) (o + BitVec.ofNat 16 k)) := by
  intro k hk
  exact h.fixed k (by rw [List.length_append, List.length_singleton]; omega)

theorem bios_print_spec (hB : Teletype B own depth) {fuel : Nat}
    (hfuel : str.length < fuel) (hz : 0#8 ∉ str)
    (hstr : Lasting own (depth + 16) c (c.reg .si) (str ++ [0#8]))
    (hoff : Off own (c.seg .ss) (c.reg .sp + 2#16) 18)
    (hdepth : depth + 18 ≤ 65536) :
    ∃ d, bios_print B fuel c = .ok d ∧ c.Returns own (depth + 16) d
      ∧ Printed str (· ≠ .ax)
        (InString (c.seg .ds) (c.reg .si) str.length) c d := by
  have hin : Lasting own depth c.pusha (c.reg .si) (str ++ [0#8]) :=
    hstr.below rfl rfl c.pusha_sp fun b hb => c.pusha_mem hb
  have hsi := c.pusha_reg (r := .si) (by decide)
  obtain ⟨d, hd, ht⟩ := print_loop_spec hB str fuel c.pusha hfuel
    (by rw [hsi]; exact hin.text hz) (by rw [hsi]; exact hin.fixed_le)
  refine ⟨d.popa.ret, ?_, ?_, ?_, ?_, ?_, ?_⟩
  · unfold bios_print
    rw [hd]
    rfl
  · refine leave_returns (congrFun ht.seg .ss) ?_ ht.mem hoff hdepth
    exact (ht.reg .sp (by decide) (by decide)).trans c.pusha_sp
  · exact ht.high
  · exact ht.seg
  · exact ht.typed
  · intro x hx
    rcases ht.loads x hx with hx | ⟨k, hk, rfl⟩
    · exact Or.inl hx
    · exact Or.inr ⟨k, hk, by rw [hsi]; rfl⟩

/-- What `bios_print` leaves alone, whatever SI points at. -/
theorem bios_print_frame (hB : Teletype B own depth) {fuel : Nat}
    (h : bios_print B fuel c = .ok d) :
    d.seg = c.seg ∧ d.reg .sp = c.reg .sp + 2#16
      ∧ c.Spares own (depth + 16) d := by
  obtain ⟨e, hloop, hd⟩ := bind_inv h
  cases hd
  obtain ⟨hseg, hsp, hmem⟩ := print_loop_frame hB fuel c.pusha e hloop
  refine ⟨hseg, ?_, hmem.of_pusha⟩
  rw [leave_sp, hsp, pusha_sp]
  apply BitVec.eq_of_toNat_eq
  simp only [BitVec.toNat_sub, BitVec.toNat_add, BitVec.toNat_ofNat]
  omega

theorem call_bios_print_frame (hB : Teletype B own depth) {fuel : Nat}
    {back : BitVec 16} (h : c.call back (bios_print B fuel) = .ok d) :
    d.seg = c.seg ∧ d.reg .sp = c.reg .sp
      ∧ c.Spares own (depth + 18) d := by
  obtain ⟨hprint, -⟩ := call_inv h
  obtain ⟨hseg, hsp, hmem⟩ := bios_print_frame hB hprint
  refine ⟨hseg, ?_, hmem.of_push⟩
  rw [hsp, push_sp, BitVec.sub_add_cancel]

/-- `call bios_print`. -/
theorem call_bios_print (hB : Teletype B own depth) {fuel : Nat}
    (back : BitVec 16) (hfuel : str.length < fuel) (hz : 0#8 ∉ str)
    (hstr : Lasting own (depth + 18) c (c.reg .si) (str ++ [0#8]))
    (hoff : Off own (c.seg .ss) (c.reg .sp) 18)
    (hdepth : depth + 18 ≤ 65536) :
    ∃ d, c.call back (bios_print B fuel) = .ok d
      ∧ c.Steady own (depth + 18) d
      ∧ Printed str (· ≠ .ax)
        (InString (c.seg .ds) (c.reg .si) str.length) c d := by
  have hin : Lasting own (depth + 16) (c.push back) (c.reg .si)
      (str ++ [0#8]) :=
    Lasting.below (j := 2) hstr rfl rfl rfl fun b hb => c.push_mem back hb
  obtain ⟨d, hd, hret, hp⟩ := bios_print_spec hB hfuel hz hin
    (by rw [push_sp, BitVec.sub_add_cancel]; exact hoff) hdepth
  obtain ⟨hcall, hsteady⟩ := call_steady hd hret
  exact ⟨d, hcall, hsteady, hp.of_push⟩

end BootLoader.FirstStage
