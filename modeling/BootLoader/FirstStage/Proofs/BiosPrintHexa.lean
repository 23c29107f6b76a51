/-
The hexadecimal printer: what `bios_print_hexa` types for EDI.

Round `i` of its loop shifts the digits already typed out of EBX at the
top, so the invariant is that EBX is EDI shifted left by `4 i` bits and
the first `i` digits have been typed (`HexaAt`). The upper halves of EBX
and ESI do not survive: `pusha` has not saved them.
-/
import BootLoader.FirstStage.Proofs.BiosPrint
import BootLoader.Lib.Words

namespace BootLoader.FirstStage

open FlatMemory Segment RealMode Pc

variable {ω : Type _} {B : Bios ω} {own : BitVec 64 → Prop} {depth : Nat}
  {c d : Pc ω} {L : Hexa}

-- ============================================================ one digit

/-- The digit at the top of a register shifted left by `i` digits. -/
theorem top_digit (v : BitVec 32) {i : Nat} (hi : i < 8) :
    (((v <<< (4 * i)) &&& 0xF0000000#32) >>> 0x1C).toNat
      = v.toNat / 16 ^ (7 - i) % 16 := by
  have hmask : ((v <<< (4 * i)) &&& 0xF0000000#32) >>> 0x1C
      = (v <<< (4 * i)) >>> 0x1C := by
    apply BitVec.eq_of_getLsbD_eq
    intro j hj
    have hbit : j < 4 → (0xF0000000#32).getLsbD (28 + j) = true := by
      revert j
      decide
    rw [BitVec.getLsbD_ushiftRight, BitVec.getLsbD_ushiftRight,
      BitVec.getLsbD_and]
    by_cases h4 : j < 4
    · rw [hbit h4, Bool.and_true]
    · rw [BitVec.getLsbD_of_ge (v <<< (4 * i)) (28 + j) (by omega)]
      exact Bool.false_and _
  have hpow : (16 : Nat) ^ (7 - i) = 2 ^ (28 - 4 * i) := by
    rw [show (16 : Nat) = 2 ^ 4 by rfl, ← Nat.pow_mul]
    congr 1
    omega
  rw [hmask, hpow]
  exact Words.toNat_cut v (by omega) (by omega)

/-- The digits table, as the reads of the printer meet it. -/
def InDigits (s : BitVec 16) (L : Hexa) (x : Load) : Prop :=
  ∃ k < 16, x = ⟨linear s (L.hexa_digits + BitVec.ofNat 16 k), 1⟩

/-- What one round does. -/
structure Rounded (own : BitVec 64 → Prop) (depth : Nat) (L : Hexa) (k : Nat)
    (c d : Pc ω) : Prop where
  cx : d.reg .cx = c.reg .cx - 1#16
  bx : d.wide .bx = c.wide .bx <<< 4
  reg : ∀ r, r ≠ .ax → r ≠ .si → r ≠ .bx → r ≠ .cx → d.reg r = c.reg r
  mem : c.Spares own depth d
  print : Printed [c.byte .ds (L.hexa_digits + BitVec.ofNat 16 k)]
    (fun r => r ≠ .ax ∧ r ≠ .si ∧ r ≠ .bx) (InDigits (c.seg .ds) L) c d

theorem hexa_round_spec (hB : Teletype B own depth) {k : Nat}
    (hk : ((c.wide .bx &&& 0xF0000000#32) >>> 0x1C).toNat = k)
    (hlt : k < 16) : Rounded own depth L k c (hexa_round B L c) := by
  have hsi : ((c.wide .bx &&& 0xF0000000#32) >>> 0x1C).extractLsb' 0 16
      = BitVec.ofNat 16 k := by
    apply BitVec.eq_of_toNat_eq
    rw [BitVec.extractLsb'_toNat, hk, BitVec.toNat_ofNat]
    rfl
  -- the machine as the teletype service finds it
  obtain ⟨t, ht⟩ : ∃ t : Pc ω, t =
      ((((((c.setWide .si (c.wide .bx)).setWide .si
        (c.wide .bx &&& 0xF0000000#32)).setWide .si
        ((c.wide .bx &&& 0xF0000000#32) >>> 0x1C)).reads .ds
        (L.hexa_digits + BitVec.ofNat 16 k) 1).setLow8 .ax
        (c.byte .ds (L.hexa_digits + BitVec.ofNat 16 k))).setHigh8 .ax
        0x0E#8) := ⟨_, rfl⟩
  have hround : hexa_round B L c
      = (((t.int B 0x10#8).setWide .bx ((t.int B 0x10#8).wide .bx <<< 4)).set
        .cx ((t.int B 0x10#8).reg .cx - 1#16)) := by
    rw [ht, ← hsi]
    simp only [hexa_round, wide_setWide, setWide_reg, if_true]
    rfl
  have hah : t.high8 .ax = 0x0E#8 := by
    rw [ht]
    simp only [high8, setHigh8, set_reg, if_true]
    exact BitVec.extractLsb'_append_eq_left
  have hreg : ∀ r, r ≠ .ax → r ≠ .si → t.reg r = c.reg r := by
    intro r hax hsi'
    rw [ht]
    simp [hax, hsi']
  have hhigh : ∀ r, r ≠ .si → t.high r = c.high r := by
    intro r hr
    rw [ht]
    simp [hr]
  have hchar : Call.typed ⟨0x10#8, t.reg, t.high, t.seg⟩
      = some (c.byte .ds (L.hexa_digits + BitVec.ofNat 16 k)) := by
    rw [ht]
    simp only [Call.typed, setHigh8, setLow8, set_reg, if_true,
      BitVec.extractLsb'_append_eq_left, BitVec.extractLsb'_append_eq_right,
      and_self]
  have hseg : t.seg = c.seg := by rw [ht]; rfl
  have hmem : t.mem = c.mem := by rw [ht]; rfl
  have hissued : t.issued = c.issued := by rw [ht]; rfl
  have hloads : t.loads = c.loads ++
      [⟨linear (c.seg .ds) (L.hexa_digits + BitVec.ofNat 16 k), 1⟩] := by
    rw [ht]
    rfl
  have hquiet := hB t hah
  rw [hround]
  refine ⟨?_, ?_, ?_, ?_, ?_, ?_, ?_, ?_⟩
  · simp only [set_reg, if_true, int_reg]
    rw [hquiet.reg .cx (by decide), hreg .cx (by decide) (by decide)]
  · have hbx : (t.int B 0x10#8).wide .bx = c.wide .bx :=
      (wide_eq (hquiet.reg .bx (by decide))
        (hquiet.high .bx (by decide))).trans
        (wide_eq (hreg .bx (by decide) (by decide)) (hhigh .bx (by decide)))
    rw [hbx]
    exact wide_setWide _ _ _
  · intro r hax hsi' hbx hcx
    simp only [set_reg, if_neg hcx, setWide_reg, if_neg hbx, int_reg]
    exact (hquiet.reg r hax).trans (hreg r hax hsi')
  · intro b hb
    have hfix := hb.congr (d := t) (by rw [hseg])
      (hreg .sp (by decide) (by decide))
    exact (hquiet.mem b hfix).trans (congrFun hmem b)
  · intro r hr
    simp only [set_high, setWide_high, if_neg hr.2.2, int_high]
    exact (hquiet.high r hr.1).trans (hhigh r hr.2.1)
  · exact hquiet.seg.trans hseg
  · show typed (t.int B 0x10#8) = _
    rw [typed_int, hchar]
    show t.issued.filterMap Call.typed ++ _ = _
    rw [hissued]
    rfl
  · intro x hx
    have hx' : x ∈ t.loads := hx
    rw [hloads] at hx'
    rcases List.mem_append.1 hx' with hx' | hx'
    · exact Or.inl hx'
    · exact Or.inr ⟨k, hlt, List.mem_singleton.1 hx'⟩

-- ========================================================== eight digits

/-- The invariant of the loop after `i` rounds, printing `v`. -/
structure HexaAt (own : BitVec 64 → Prop) (depth : Nat) (L : Hexa)
    (v : BitVec 32) (c : Pc ω) (i : Nat) (d : Pc ω) : Prop where
  cx : d.reg .cx = 8#16 - BitVec.ofNat 16 i
  bx : d.wide .bx = v <<< (4 * i)
  reg : ∀ r, r ≠ .ax → r ≠ .si → r ≠ .bx → r ≠ .cx → d.reg r = c.reg r
  mem : c.Spares own depth d
  print : Printed ((hexText v).take i)
    (fun r => r ≠ .ax ∧ r ≠ .si ∧ r ≠ .bx) (InDigits (c.seg .ds) L) c d

theorem hexText_getD (v : BitVec 32) {i : Nat} (hi : i < 8) :
    (hexText v).take (i + 1) = (hexText v).take i
      ++ [hexaDigits.getD (v.toNat / 16 ^ (7 - i) % 16) 0#8] := by
  have hlen : (hexText v).length = 8 := by
    simp only [hexText, List.length_map, List.length_range]
  rw [List.take_succ_eq_append_getElem (by omega)]
  simp only [hexText, List.getElem_map, List.getElem_range]

theorem hexa_round_at (hB : Teletype B own depth) {v : BitVec 32} {i : Nat}
    (hdig : Lasting own depth c L.hexa_digits hexaDigits) (hi : i < 8)
    (h : HexaAt own depth L v c i d) :
    HexaAt own depth L v c (i + 1) (hexa_round B L d) := by
  have hk : v.toNat / 16 ^ (7 - i) % 16 < 16 := Nat.mod_lt _ (by omega)
  have hr := hexa_round_spec (L := L) hB
    (by rw [h.bx]; exact top_digit v hi) hk
  have hss := congrFun h.print.seg .ss
  have hsp := h.reg .sp (by decide) (by decide) (by decide) (by decide)
  have hbyte : d.byte .ds (L.hexa_digits
        + BitVec.ofNat 16 (v.toNat / 16 ^ (7 - i) % 16))
      = hexaDigits.getD (v.toNat / 16 ^ (7 - i) % 16) 0#8 := by
    unfold byte
    rw [h.print.seg, h.mem _ (hdig.fixed _ hk)]
    exact hdig.there _ hk
  refine ⟨?_, ?_, ?_, h.mem.trans hr.mem hss hsp, ?_⟩
  · rw [hr.cx, h.cx, BitVec.ofNat_add]
    exact BitVec.sub_sub _ _ _
  · rw [hr.bx, h.bx]
    exact (BitVec.shiftLeft_add v (4 * i) 4).symm
  · exact fun r h1 h2 h3 h4 =>
      (hr.reg r h1 h2 h3 h4).trans (h.reg r h1 h2 h3 h4)
  · have hp := hr.print
    rw [hbyte, h.print.seg] at hp
    rw [hexText_getD v hi]
    exact h.print.trans hp

/-- The counter after `i` of the eight rounds. -/
theorem counter_slt {x : BitVec 16} {i : Nat} (hi : i ≤ 8)
    (hx : x = 8#16 - BitVec.ofNat 16 i) :
    (0#16).slt x = decide (i < 8) := by
  subst hx
  revert i
  decide

theorem bios_print_hexa_spec (hB : Teletype B own depth) {fuel : Nat}
    (hfuel : 8 ≤ fuel)
    (hdig : Lasting own (depth + 16) c L.hexa_digits hexaDigits)
    (hoff : Off own (c.seg .ss) (c.reg .sp + 2#16) 18)
    (hdepth : depth + 18 ≤ 65536) :
    ∃ d, bios_print_hexa B L fuel c = .ok d ∧ c.Returns own (depth + 16) d
      ∧ Printed (hexText (c.wide .di)) (fun r => r ≠ .ax ∧ r ≠ .si ∧ r ≠ .bx)
        (InDigits (c.seg .ds) L) c d := by
  -- the machine when the loop is entered
  obtain ⟨t, ht⟩ : ∃ t : Pc ω, t = (c.pusha.set .cx 8#16).setWide .bx
      ((c.pusha.set .cx 8#16).wide .di) := ⟨_, rfl⟩
  have hreg : ∀ r, r ≠ .bx → r ≠ .cx → t.reg r = c.pusha.reg r := by
    intro r hbx hcx
    rw [ht, setWide_reg, if_neg hbx, set_reg, if_neg hcx]
  have hsp : t.reg .sp = c.reg .sp - 16#16 :=
    (hreg .sp (by decide) (by decide)).trans c.pusha_sp
  have hdi : (c.pusha.set .cx 8#16).wide .di = c.wide .di :=
    wide_eq (c.pusha_reg (r := .di) (by decide)) rfl
  have hin : Lasting own depth t L.hexa_digits hexaDigits := by
    refine hdig.below ?_ ?_ hsp fun b hb => ?_
    · rw [ht]
      rfl
    · rw [ht]
      rfl
    · rw [ht]
      exact c.pusha_mem hb
  have hstart : HexaAt own depth L (c.wide .di) t 0 t := by
    refine ⟨?_, ?_, fun _ _ _ _ _ => rfl, Spares.refl _ _ _, ?_⟩
    · rw [ht]
      rfl
    · rw [ht, wide_setWide, hdi]
      exact (BitVec.shiftLeft_zero _).symm
    · exact ⟨fun _ _ => rfl, rfl, (List.append_nil _).symm,
        fun _ hx => Or.inl hx⟩
  obtain ⟨d, hd, hat⟩ : ∃ d, hexa_loop B L fuel t = .ok d
      ∧ HexaAt own depth L (c.wide .di) t 8 d := by
    refine Loop.attempt_counted (HexaAt own depth L (c.wide .di) t)
      (by omega) ?_ ?_ ?_ hfuel hstart
    · exact fun i e hi he => ⟨_, rfl, hexa_round_at hB hin hi he⟩
    · intro i e _ hi he
      rw [counter_slt (Nat.le_of_lt hi) he.cx]
      exact decide_eq_true hi
    · intro e he
      rw [counter_slt (Nat.le_refl 8) he.cx]
      rfl
  have hfull : (hexText (c.wide .di)).take 8 = hexText (c.wide .di) := by
    refine List.take_of_length_le ?_
    simp only [hexText, List.length_map, List.length_range, Nat.le_refl]
  refine ⟨d.popa.ret, ?_, ?_, ?_, ?_, ?_, ?_⟩
  · show hexa_loop B L fuel _ >>= _ = _
    rw [← ht, hd]
    rfl
  · refine leave_returns ?_ ?_ ?_ hoff hdepth
    · rw [hat.print.seg, ht]
      rfl
    · exact (hat.reg .sp (by decide) (by decide) (by decide)
        (by decide)).trans hsp
    · intro b hb
      rw [hat.mem b (hb.congr (by rw [ht]; rfl) (hsp.trans c.pusha_sp.symm)), ht]
      rfl
  · intro r hr
    refine (hat.print.high r hr).trans ?_
    rw [ht, setWide_high, if_neg hr.2.2]
    rfl
  · refine hat.print.seg.trans ?_
    rw [ht]
    rfl
  · have htyped := hat.print.typed
    rw [hfull] at htyped
    refine htyped.trans ?_
    rw [ht]
    rfl
  · intro x hx
    rcases hat.print.loads x hx with hx | hx
    · refine Or.inl ?_
      rw [ht] at hx
      exact hx
    · refine Or.inr ?_
      rw [ht] at hx
      exact hx

/-- `call bios_print_hexa`. -/
theorem call_bios_print_hexa (hB : Teletype B own depth) {fuel : Nat}
    (back : BitVec 16) (hfuel : 8 ≤ fuel)
    (hdig : Lasting own (depth + 18) c L.hexa_digits hexaDigits)
    (hoff : Off own (c.seg .ss) (c.reg .sp) 18)
    (hdepth : depth + 18 ≤ 65536) :
    ∃ d, c.call back (bios_print_hexa B L fuel) = .ok d
      ∧ c.Steady own (depth + 18) d
      ∧ Printed (hexText (c.wide .di)) (fun r => r ≠ .ax ∧ r ≠ .si ∧ r ≠ .bx)
        (InDigits (c.seg .ds) L) c d := by
  have hin : Lasting own (depth + 16) (c.push back) L.hexa_digits
      hexaDigits :=
    Lasting.below (j := 2) hdig rfl rfl rfl fun b hb => c.push_mem back hb
  obtain ⟨d, hd, hret, hp⟩ := bios_print_hexa_spec hB hfuel hin
    (by rw [push_sp, BitVec.sub_add_cancel]; exact hoff) hdepth
  obtain ⟨hcall, hsteady⟩ := call_steady hd hret
  have hdi : (c.push back).wide .di = c.wide .di :=
    wide_eq (c.push_reg back (by decide)) rfl
  rw [hdi] at hp
  exact ⟨d, hcall, hsteady, hp.of_push⟩

-- ============================================================ reading back

theorem hexText_length (v : BitVec 32) : (hexText v).length = 8 := by
  simp only [hexText, List.length_map, List.length_range]

theorem hexaDigits_inj : ∀ j < 16, ∀ k < 16,
    hexaDigits.getD j 0#8 = hexaDigits.getD k 0#8 → j = k := by
  decide

/-- The digits determine the number. -/
theorem hexText_inj {v w : BitVec 32} (h : hexText v = hexText w) : v = w := by
  have hdigit : ∀ i < 8, v.toNat / 16 ^ (7 - i) % 16
      = w.toNat / 16 ^ (7 - i) % 16 := by
    intro i hi
    have hget := congrArg (fun l => l.getD i 0#8) h
    have hlen : i < (List.range 8).length := by
      rw [List.length_range]
      exact hi
    simp only [hexText, List.getD_eq_getElem?_getD, List.getElem?_map,
      List.getElem?_eq_getElem hlen, List.getElem_range, Option.map_some,
      Option.getD_some] at hget
    exact hexaDigits_inj _ (Nat.mod_lt _ (by omega)) _
      (Nat.mod_lt _ (by omega)) (by
        simpa only [List.getD_eq_getElem?_getD] using hget)
  have h0 := hdigit 0 (by omega)
  have h1 := hdigit 1 (by omega)
  have h2 := hdigit 2 (by omega)
  have h3 := hdigit 3 (by omega)
  have h4 := hdigit 4 (by omega)
  have h5 := hdigit 5 (by omega)
  have h6 := hdigit 6 (by omega)
  have h7 := hdigit 7 (by omega)
  simp only [Nat.reduceSub, Nat.reducePow] at h0 h1 h2 h3 h4 h5 h6 h7
  apply BitVec.eq_of_toNat_eq
  omega

-- ============================================================ the prefix

/-- The zero-terminated prefix, without its zero. -/
def hexaPrefix : List (BitVec 8) := chars "0x"

/-- What the prefixed printer reads. -/
def InPrefixed (s : BitVec 16) (L : Hexa) (x : Load) : Prop :=
  InString s L.hexa_prefix hexaPrefix.length x ∨ InDigits s L x

theorem bios_print_hexa_with_prefix_spec (hB : Teletype B own depth)
    {fuel : Nat} (hfuel : 8 ≤ fuel)
    (hdig : Lasting own (depth + 34) c L.hexa_digits hexaDigits)
    (hpre : Lasting own (depth + 34) c L.hexa_prefix (hexaPrefix ++ [0#8]))
    (hoff : Off own (c.seg .ss) (c.reg .sp + 2#16) 36)
    (hdepth : depth + 36 ≤ 65536) :
    ∃ d, bios_print_hexa_with_prefix B L fuel c = .ok d
      ∧ c.Returns own (depth + 34) d
      ∧ Printed (hexaPrefix ++ hexText (c.wide .di))
        (fun r => r ≠ .ax ∧ r ≠ .si ∧ r ≠ .bx)
        (InPrefixed (c.seg .ds) L) c d := by
  obtain ⟨t, ht⟩ : ∃ t : Pc ω, t = c.pusha.set .si L.hexa_prefix := ⟨_, rfl⟩
  have hsp : t.reg .sp = c.reg .sp - 16#16 := by
    rw [ht]
    exact c.pusha_sp
  have hseg : t.seg = c.seg := by rw [ht]; rfl
  have hmem : t.mem = c.pusha.mem := by rw [ht]; rfl
  have hframe : ∀ b, ¬ Under (c.seg .ss) (c.reg .sp) 16 b →
      t.mem b = c.mem b := by
    intro b hb
    rw [hmem]
    exact c.pusha_mem hb
  have hback : c.reg .sp - 16#16 = c.reg .sp + 2#16 - 18#16 := by
    apply BitVec.eq_of_toNat_eq
    simp only [BitVec.toNat_sub, BitVec.toNat_add, BitVec.toNat_ofNat]
    omega
  have hofft : Off own (t.seg .ss) (t.reg .sp) 18 := by
    rw [hseg, hsp, hback]
    exact Off.below (j := 18) hoff
  have hpret : Lasting own (depth + 18) t (t.reg .si)
      (hexaPrefix ++ [0#8]) := by
    have hsi : t.reg .si = L.hexa_prefix := by rw [ht]; rfl
    rw [hsi]
    exact Lasting.below (j := 16) hpre (congrFun hseg _) (congrFun hseg _)
      hsp hframe
  have hdigt : Lasting own (depth + 18) t L.hexa_digits hexaDigits :=
    Lasting.below (j := 16) hdig (congrFun hseg _) (congrFun hseg _)
      hsp hframe
  obtain ⟨u, hu, hus, hup⟩ := call_bios_print hB L.back_prefix
    (Nat.lt_of_lt_of_le (show hexaPrefix.length < 8 by decide) hfuel)
    (by decide) hpret hofft (by omega)
  have husp := congrFun hus.reg .sp
  obtain ⟨d, hd, hds, hdp⟩ := call_bios_print_hexa (L := L) (c := u) hB
    L.back_digits hfuel
    (hdigt.next hus.mem (congrFun hup.seg _) hus.ss husp)
    (by rw [hus.ss, husp]; exact hofft) (by omega)
  have hdi : u.wide .di = c.wide .di := by
    refine (wide_eq (congrFun hus.reg .di)
      (hup.high .di (by decide))).trans (wide_eq ?_ ?_)
    · rw [ht]
      exact c.pusha_reg (r := .di) (by decide)
    · rw [ht]
      rfl
  have hboth := hus.trans hds
  have hspare : c.pusha.Spares own (depth + 18) d := by
    intro b hb
    have hfix := hb.congr (d := t) (congrFun hseg _)
      (hsp.trans c.pusha_sp.symm)
    exact (hboth.mem b hfix).trans (congrFun hmem b)
  refine ⟨d.popa.ret, ?_, ?_, ?_, ?_, ?_, ?_⟩
  · show (c.pusha.set .si L.hexa_prefix).call _ _ >>= _ = _
    rw [← ht, hu]
    show u.call _ _ >>= _ = _
    rw [hd]
    rfl
  · refine leave_returns (hboth.ss.trans (congrFun hseg _)) ?_ hspare
      (hoff.mono (by omega)) (by omega)
    exact (congrFun hboth.reg .sp).trans hsp
  · intro r hr
    refine (hdp.high r hr).trans ((hup.high r hr.1).trans ?_)
    rw [ht]
    rfl
  · exact hdp.seg.trans (hup.seg.trans hseg)
  · have htext := hdp.typed
    rw [hdi, hup.typed, List.append_assoc] at htext
    refine htext.trans ?_
    rw [ht]
    rfl
  · intro x hx
    rcases hdp.loads x hx with hx | hx
    · rcases hup.loads x hx with hx | hx
      · rw [ht] at hx
        exact Or.inl hx
      · refine Or.inr (Or.inl ?_)
        rw [ht] at hx
        exact hx
    · refine Or.inr (Or.inr ?_)
      rw [hup.seg, hseg] at hx
      exact hx

/-- `call bios_print_hexa_with_prefix`. -/
theorem call_bios_print_hexa_with_prefix (hB : Teletype B own depth)
    {fuel : Nat} (back : BitVec 16) (hfuel : 8 ≤ fuel)
    (hdig : Lasting own (depth + 36) c L.hexa_digits hexaDigits)
    (hpre : Lasting own (depth + 36) c L.hexa_prefix (hexaPrefix ++ [0#8]))
    (hoff : Off own (c.seg .ss) (c.reg .sp) 36)
    (hdepth : depth + 36 ≤ 65536) :
    ∃ d, c.call back ( bios_print_hexa_with_prefix B L fuel) = .ok d
      ∧ c.Steady own (depth + 36) d
      ∧ Printed (hexaPrefix ++ hexText (c.wide .di))
        (fun r => r ≠ .ax ∧ r ≠ .si ∧ r ≠ .bx)
        (InPrefixed (c.seg .ds) L) c d := by
  have hframe : ∀ b, ¬ Under (c.seg .ss) (c.reg .sp) 2 b →
      (c.push back).mem b = c.mem b := fun b hb => c.push_mem back hb
  obtain ⟨d, hd, hret, hp⟩ := bios_print_hexa_with_prefix_spec
    (c := c.push back) hB hfuel
    (Lasting.below (j := 2) hdig rfl rfl rfl hframe)
    (Lasting.below (j := 2) hpre rfl rfl rfl hframe)
    (by rw [push_sp, BitVec.sub_add_cancel]; exact hoff) hdepth
  obtain ⟨hcall, hsteady⟩ := call_steady hd hret
  have hdi : (c.push back).wide .di = c.wide .di :=
    wide_eq (c.push_reg back (by decide)) rfl
  rw [hdi] at hp
  exact ⟨d, hcall, hsteady, hp.of_push⟩

end BootLoader.FirstStage
