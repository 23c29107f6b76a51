/-
What `print_memory_regions` prints.

# The text

`mapText` is the printout the map calls for: the count, then a line for
each region. Every line has the same length, so the text gives the number
of lines and each of them back (`mapText_inj`).

# The counter

The scanner stores the count in a word. The printer prints that word, but
loads its round counter from the doubleword at the same place, so the two
bytes after the count are the upper half of ECX. The loop runs as often as
the doubleword says (`print_memory_regions_spec`), and that is the number
of regions exactly when those two bytes are zero.
-/
import BootLoader.SecondStage.Proofs.MemoryScanner
import BootLoader.FirstStage.Proofs.BiosPrintHexa

namespace BootLoader.SecondStage

open FlatMemory Segment RealMode Pc FirstStage

variable {ω : Type _} {B : Bios ω} {L : MapLabels} {own : BitVec 64 → Prop}
  {depth fuel : Nat} {c d e : Pc ω}

-- ============================================================== the text

/-- A line end. -/
def crlf : List (BitVec 8) := [13#8, 10#8]

def doubleSpace : List (BitVec 8) := chars "  "

/-- Sixteen digits, in two halves. -/
def hex64 (v : BitVec 64) : List (BitVec 8) :=
  hexText (v.extractLsb' 32 32) ++ hexText (v.extractLsb' 0 32)

/-- The line of a region. -/
def regionText (e : Region) : List (BitVec 8) :=
  hexaPrefix ++ hex64 e.base ++ doubleSpace ++ hexaPrefix ++ hex64 e.length
    ++ doubleSpace ++ hexaPrefix ++ hexText e.type ++ crlf

/-- The count and the lines. -/
def mapText (n : Nat) (es : List Region) : List (BitVec 8) :=
  hexText (BitVec.ofNat 32 n) ++ crlf ++ es.flatMap regionText

theorem hex64_length (v : BitVec 64) : (hex64 v).length = 16 := by
  simp only [hex64, List.length_append, hexText_length]

theorem hex64_inj {v w : BitVec 64} (h : hex64 v = hex64 w) : v = w := by
  obtain ⟨hhi, hlo⟩ := List.append_inj h (by
    rw [hexText_length, hexText_length])
  have hhalves : ∀ x : BitVec (32 + 32),
      x.extractLsb' 32 32 ++ x.extractLsb' 0 32 = x := fun x =>
    @BitVec.extractLsb'_append_extractLsb' 32 32 x
  rw [← hhalves v, ← hhalves w, hexText_inj hhi, hexText_inj hlo]

theorem regionText_length (e : Region) : (regionText e).length = 52 := by
  simp only [regionText, List.length_append, hex64_length, hexText_length]
  rfl

theorem regionText_inj {e f : Region} (h : regionText e = regionText f) :
    e = f := by
  unfold regionText at h
  simp only [List.append_assoc] at h
  obtain ⟨-, h⟩ := List.append_inj h rfl
  obtain ⟨hbase, h⟩ := List.append_inj h (by
    rw [hex64_length, hex64_length])
  obtain ⟨-, h⟩ := List.append_inj h rfl
  obtain ⟨-, h⟩ := List.append_inj h rfl
  obtain ⟨hlength, h⟩ := List.append_inj h (by
    rw [hex64_length, hex64_length])
  obtain ⟨-, h⟩ := List.append_inj h rfl
  obtain ⟨-, h⟩ := List.append_inj h rfl
  obtain ⟨htype, -⟩ := List.append_inj h (by
    rw [hexText_length, hexText_length])
  have hb := hex64_inj hbase
  have hl := hex64_inj hlength
  have ht := hexText_inj htype
  cases e
  cases f
  simp only at hb hl ht
  rw [hb, hl, ht]

theorem lines_length (es : List Region) :
    (es.flatMap regionText).length = 52 * es.length := by
  induction es with
  | nil => rfl
  | cons e es ih =>
      rw [List.flatMap_cons, List.length_append, regionText_length, ih,
        List.length_cons]
      omega

theorem lines_inj : ∀ {es fs : List Region},
    es.flatMap regionText = fs.flatMap regionText → es = fs := by
  intro es
  induction es with
  | nil =>
      intro fs h
      have hlen := congrArg List.length h
      rw [lines_length, lines_length] at hlen
      exact (List.eq_nil_of_length_eq_zero (by
        rw [List.length_nil] at hlen
        omega)).symm
  | cons e es ih =>
      intro fs h
      cases fs with
      | nil =>
          have hlen := congrArg List.length h
          rw [lines_length, lines_length, List.length_cons,
            List.length_nil] at hlen
          omega
      | cons f fs =>
          rw [List.flatMap_cons, List.flatMap_cons] at h
          obtain ⟨hhead, htail⟩ := List.append_inj h (by
            rw [regionText_length, regionText_length])
          rw [regionText_inj hhead, ih htail]

theorem mapText_length (n : Nat) (es : List Region) :
    (mapText n es).length = 10 + 52 * es.length := by
  simp only [mapText, List.length_append, hexText_length, lines_length]
  rfl

/-- The regions can be read back from the text. -/
theorem mapText_inj {n k : Nat} {es fs : List Region}
    (h : mapText n es = mapText k fs) : es = fs := by
  unfold mapText at h
  refine lines_inj (List.append_inj h ?_).2
  simp only [List.length_append, hexText_length]

-- ==================================================== printing, in steps

/-- The region at `s:o`, read off. -/
def regionOf (m : Mem) (s o : BitVec 16) : Region :=
  ⟨load m s o 8, load m s (o + 8#16) 8, load m s (o + 16#16) 4⟩

theorem RegionAt.eq {m : Mem} {s o : BitVec 16} {e : Region}
    (h : RegionAt m s o e) : regionOf m s o = e := by
  unfold regionOf
  rw [h.base, h.length, h.type]

/-- What a step of the printer leaves: `str` typed, its pointer and counter
as they were, reads within `area`. -/
structure Says (own : BitVec 64 → Prop) (n : Nat) (str : List (BitVec 8))
    (area : Load → Prop) (c d : Pc ω) : Prop where
  sp : d.reg .sp = c.reg .sp
  si : d.reg .si = c.reg .si
  cx : d.wide .cx = c.wide .cx
  seg : d.seg = c.seg
  mem : c.Spares own n d
  typed : typed d = typed c ++ str
  loads : ∀ x ∈ d.loads, x ∈ c.loads ∨ area x

theorem Says.trans {n : Nat} {str str' : List (BitVec 8)} {area : Load → Prop}
    (h : Says own n str area c d) (h' : Says own n str' area d e) :
    Says own n (str ++ str') area c e := by
  refine ⟨h'.sp.trans h.sp, h'.si.trans h.si, h'.cx.trans h.cx,
    h'.seg.trans h.seg, ?_, ?_, ?_⟩
  · exact h.mem.trans h'.mem (congrFun h.seg .ss) h.sp
  · rw [h'.typed, h.typed, List.append_assoc]
  · intro x hx
    rcases h'.loads x hx with hx | hx
    · exact h.loads x hx
    · exact Or.inr hx

/-- What the printer needs in place: its strings and digits, and the stack
clear of the BIOS's own bytes. -/
structure Ready (own : BitVec 64 → Prop) (depth : Nat) (L : MapLabels)
    (c : Pc ω) : Prop where
  digits : Lasting own (depth + 36) c L.hexa.hexa_digits hexaDigits
  start : Lasting own (depth + 36) c L.hexa.hexa_prefix
    (hexaPrefix ++ [0#8])
  gap : Lasting own (depth + 36) c L.double_space (doubleSpace ++ [0#8])
  line : Lasting own (depth + 36) c L.newline (crlf ++ [0#8])
  off : Off own (c.seg .ss) (c.reg .sp) 36
  ds : c.seg .ds = 0#16

theorem Ready.next (h : Ready own depth L c) (hseg : d.seg = c.seg)
    (hsp : d.reg .sp = c.reg .sp) (hmem : c.Spares own (depth + 36) d) :
    Ready own depth L d := by
  have hds := congrFun hseg .ds
  have hss := congrFun hseg .ss
  refine ⟨h.digits.next hmem hds hss hsp, h.start.next hmem hds hss hsp,
    h.gap.next hmem hds hss hsp, h.line.next hmem hds hss hsp, ?_,
    hds.trans h.ds⟩
  rw [hss, hsp]
  exact h.off

/-- The bytes below the region segment, where strings and digits lie. -/
def LowLoad (x : Load) : Prop := x.addr.toNat + x.size ≤ 0x20000

theorem lowLoad_zero (o : BitVec 16) : LowLoad ⟨linear 0#16 o, 1⟩ := by
  unfold LowLoad
  rw [linear_toNat]
  show 16 * 0 + o.toNat + 1 ≤ _
  omega

theorem inString_low {o : BitVec 16} {n : Nat} {x : Load}
    (h : InString 0#16 o n x) : LowLoad x := by
  obtain ⟨k, -, rfl⟩ := h
  exact lowLoad_zero _

theorem inDigits_low {H : Hexa} {x : Load} (h : InDigits 0#16 H x) :
    LowLoad x := by
  obtain ⟨k, -, rfl⟩ := h
  exact lowLoad_zero _

theorem inPrefixed_low {H : Hexa} {x : Load} (h : InPrefixed 0#16 H x) :
    LowLoad x := by
  rcases h with h | h
  · exact inString_low h
  · exact inDigits_low h

theorem Says.area {n : Nat} {str : List (BitVec 8)} {area area' : Load → Prop}
    (h : Says own n str area c d) (ha : ∀ x, area x → area' x) :
    Says own n str area' c d :=
  ⟨h.sp, h.si, h.cx, h.seg, h.mem, h.typed,
    fun x hx => (h.loads x hx).imp_right (ha x)⟩

/-- A doubleword loaded into EDI. -/
theorem says_get32 (own : BitVec 64 → Prop) (depth : Nat) (c : Pc ω)
    (o : BitVec 16) :
    Says own (depth + 36) [] (· = ⟨linear (c.seg .es) o, 4⟩) c
      (c.get32 .di .es o) := by
  refine ⟨rfl, rfl, rfl, rfl, fun _ _ => rfl, (List.append_nil _).symm, ?_⟩
  intro x hx
  rcases List.mem_append.1 hx with hx | hx
  · exact Or.inl hx
  · exact Or.inr (List.mem_singleton.1 hx)

/-- What a printing call leaves. -/
theorem says_call {n : Nat} {str : List (BitVec 8)} {halves : Gpr → Prop}
    {area : Load → Prop} (hcx : halves .cx) (hs : c.Steady own n d)
    (hp : Printed str halves area c d) : Says own n str area c d :=
  ⟨congrFun hs.reg .sp, congrFun hs.reg .si,
    wide_eq (congrFun hs.reg .cx) (hp.high .cx hcx), hp.seg, hs.mem,
    hp.typed, hp.loads⟩

theorem Says.mono {n k : Nat} {str : List (BitVec 8)} {area : Load → Prop}
    (h : Says own k str area c d) (hk : k ≤ n) : Says own n str area c d :=
  ⟨h.sp, h.si, h.cx, h.seg, h.mem.mono hk, h.typed, h.loads⟩

/-- EDI printed. -/
theorem says_hexa (fuel : Nat) (hB : Teletype B own depth) (h : Ready own depth L c)
    (back : BitVec 16) (hfuel : 8 ≤ fuel) (hdepth : depth + 36 ≤ 65536) :
    ∃ d, c.call back (bios_print_hexa B L.hexa fuel) = .ok d
      ∧ Says own (depth + 36) (hexText (c.wide .di)) LowLoad c d := by
  obtain ⟨d, hd, hs, hp⟩ := call_bios_print_hexa hB back hfuel
    (h.digits.mono (by omega)) (h.off.mono (by omega)) (by omega)
  have hsay := (says_call (by decide) hs hp).mono (n := depth + 36) (by omega)
  rw [h.ds] at hsay
  exact ⟨d, hd, hsay.area fun _ hx => inDigits_low hx⟩

/-- The same with the prefix before it. -/
theorem says_prefixed (hB : Teletype B own depth) (h : Ready own depth L c)
    (back : BitVec 16) (hfuel : 8 ≤ fuel) (hdepth : depth + 36 ≤ 65536) :
    ∃ d, c.call back ( bios_print_hexa_with_prefix B L.hexa fuel) = .ok d
      ∧ Says own (depth + 36) (hexaPrefix ++ hexText (c.wide .di)) LowLoad
        c d := by
  obtain ⟨d, hd, hs, hp⟩ := call_bios_print_hexa_with_prefix hB back hfuel
    h.digits h.start h.off hdepth
  have hsay := says_call (by decide) hs hp
  rw [h.ds] at hsay
  exact ⟨d, hd, hsay.area fun _ hx => inPrefixed_low hx⟩

/-- What goes between the numbers, with SI kept on the stack. -/
theorem says_between (hB : Teletype B own depth) (h : Ready own depth L c)
    {str : List (BitVec 8)} {msg : BitVec 16} (back : BitVec 16)
    (hstr : Lasting own (depth + 36) c msg (str ++ [0#8])) (hz : 0#8 ∉ str)
    (hlen : str.length < fuel) (hdepth : depth + 36 ≤ 65536) :
    ∃ d, print_between B fuel msg back c = .ok d
      ∧ Says own (depth + 36) str LowLoad c d := by
  obtain ⟨t, ht⟩ : ∃ t : Pc ω, t = (c.push (c.reg .si)).set .si msg :=
    ⟨_, rfl⟩
  have hseg : t.seg = c.seg := by rw [ht]; rfl
  have hsp : t.reg .sp = c.reg .sp - 2#16 := by rw [ht]; rfl
  have hmem : t.mem = (c.push (c.reg .si)).mem := by rw [ht]; rfl
  have hsi : t.reg .si = msg := by rw [ht]; rfl
  have hlast : Lasting own (depth + 18) t (t.reg .si) (str ++ [0#8]) := by
    rw [hsi]
    refine Lasting.below (j := 2) (hstr.mono (by omega)) (congrFun hseg _)
      (congrFun hseg _) hsp fun b hb => ?_
    rw [hmem]
    exact c.push_mem _ hb
  have hoff : Off own (t.seg .ss) (t.reg .sp) 18 := by
    rw [hseg, hsp]
    exact Off.below (j := 2) (h.off.mono (by omega))
  obtain ⟨u, hu, hs, hp⟩ := call_bios_print hB back hlen hz hlast hoff
    (by omega)
  -- the word pushed is still there to be popped
  have htop : u.word .ss (u.reg .sp) = c.reg .si := by
    have hbytes : ∀ k < 2, u.mem (linear (t.seg .ss)
          (t.reg .sp + BitVec.ofNat 16 k))
        = t.mem (linear (t.seg .ss) (t.reg .sp + BitVec.ofNat 16 k)) := by
      intro k hk
      refine hs.mem _ (fixed_above (j := 2) ?_ hk (by omega))
      rw [hseg, hsp]
      show Off own _ (c.reg .sp - 2#16 + 2#16) 2
      rw [BitVec.sub_add_cancel]
      exact h.off.mono (by omega)
    unfold word
    rw [hs.ss, congrFun hs.reg .sp, load_congr hbytes, hmem, hseg, hsp]
    exact c.push_top (c.reg .si)
  have hwide : ∀ r, r ≠ .ax → r ≠ .si → r ≠ .sp →
      (u.pop .si).wide r = c.wide r := by
    intro r hax hrsi hrsp
    have hureg : u.reg r = c.reg r := by
      rw [congrFun hs.reg r, ht]
      simp [hrsi, c.push_reg _ hrsp]
    have huhigh : u.high r = c.high r := by
      rw [hp.high r hax, ht]
      rfl
    refine wide_eq ?_ huhigh
    simp [pop, hrsi, hrsp, hureg]
  refine ⟨u.pop .si, ?_, ?_, htop, ?_, hp.seg.trans hseg, ?_, ?_, ?_⟩
  · show ((c.push (c.reg .si)).set .si msg).call back _ >>= _ = _
    rw [← ht, hu]
    rfl
  · show u.reg .sp + 2#16 = _
    rw [congrFun hs.reg .sp, hsp, BitVec.sub_add_cancel]
  · exact hwide .cx (by decide) (by decide) (by decide)
  · intro b hb
    have hfix := Fixed.below (j := 2) (n := depth + 18) (d := t)
      (hb.mono (by omega)) (congrFun hseg _) hsp
    show u.mem b = _
    rw [hs.mem b hfix, hmem]
    exact c.push_mem _ fun hu => hb.2 (hu.mono (by omega))
  · refine hp.typed.trans ?_
    rw [ht]
    rfl
  · intro x hx
    rcases hp.loads x hx with hx | hx
    · rw [ht] at hx
      exact Or.inl hx
    · refine Or.inr (inString_low (o := t.reg .si) (n := str.length) ?_)
      rw [← h.ds, ← congrFun hseg .ds]
      exact hx

-- ============================================================ one region

/-- The region's bytes, as the printer's reads of it meet them. -/
def InSlot (o : BitVec 16) (x : Load) : Prop :=
  ∃ j, j + 4 ≤ 20 ∧ x = ⟨linear MEM_REGIONS_SEGMENT (o + BitVec.ofNat 16 j), 4⟩

/-- The region segment is not touched by printing. -/
theorem Says.map {n : Nat} {str : List (BitVec 8)} {area : Load → Prop}
    (h : Says own n str area c d) (hap : Apart own n c) (o : BitVec 16)
    (k : Nat) : load d.mem MEM_REGIONS_SEGMENT o k
      = load c.mem MEM_REGIONS_SEGMENT o k :=
  load_congr fun _ _ => h.mem _ ⟨hap.own _, hap.stack _⟩

theorem Apart.next {n : Nat} (h : Apart own n c) (hseg : d.seg = c.seg)
    (hsp : d.reg .sp = c.reg .sp) : Apart own n d :=
  ⟨h.own, by rw [hseg, hsp]; exact h.stack⟩

/-- What a line leaves. -/
structure Lined (own : BitVec 64 → Prop) (depth : Nat) (c d : Pc ω) :
    Prop where
  sp : d.reg .sp = c.reg .sp
  si : d.reg .si = c.reg .si + 24#16
  cx : d.wide .cx = c.wide .cx - 1#32
  seg : d.seg = c.seg
  mem : c.Spares own (depth + 36) d
  typed : typed d = typed c
    ++ regionText (regionOf c.mem MEM_REGIONS_SEGMENT (c.reg .si))
  loads : ∀ x ∈ d.loads, x ∈ c.loads ∨ LowLoad x ∨ InSlot (c.reg .si) x

theorem print_region_spec (hB : Teletype B own depth)
    (h : Ready own depth L c) (hes : c.seg .es = MEM_REGIONS_SEGMENT)
    (hap : Apart own (depth + 36) c) (hfuel : 8 ≤ fuel)
    (hdepth : depth + 36 ≤ 65536) :
    ∃ d, print_region B L fuel c = .ok d ∧ Lined own depth c d := by
  have hready : ∀ {u : Pc ω} {str : List (BitVec 8)} {area : Load → Prop},
      Says own (depth + 36) str area c u → Ready own depth L u :=
    fun hu => h.next hu.seg hu.sp hu.mem
  -- a doubleword `j` bytes into the `n`-byte field at `i`
  have hpart : ∀ {u : Pc ω} {str : List (BitVec 8)} {area : Load → Prop}
      {o : BitVec 16} (i j n : Nat), Says own (depth + 36) str area c u →
      j + 4 ≤ n → o = u.reg .si + BitVec.ofNat 16 (i + j) →
      u.dword .es o = (load c.mem MEM_REGIONS_SEGMENT
        (c.reg .si + BitVec.ofNat 16 i) n).extractLsb' (8 * j) 32 := by
    intro u str area o i j n hu hj ho
    unfold dword
    rw [hu.seg, hes, hu.map hap, ho, hu.si, BitVec.ofNat_add,
      ← BitVec.add_assoc]
    exact load_part _ _ _ hj
  -- EDI loaded with it
  have hload : ∀ {u : Pc ω} {str : List (BitVec 8)} {o : BitVec 16}
      (i j n : Nat), Says own (depth + 36) str
        (fun x => LowLoad x ∨ InSlot (c.reg .si) x) c u →
      j + 4 ≤ n → i + n ≤ 20 → o = u.reg .si + BitVec.ofNat 16 (i + j) →
      Says own (depth + 36) str (fun x => LowLoad x ∨ InSlot (c.reg .si) x)
          c (u.get32 .di .es o)
        ∧ (u.get32 .di .es o).wide .di = (load c.mem MEM_REGIONS_SEGMENT
          (c.reg .si + BitVec.ofNat 16 i) n).extractLsb' (8 * j) 32 := by
    intro u str o i j n hu hj hn ho
    have hget := hu.trans ((says_get32 own depth u o).area
      fun x hx => Or.inr ⟨i + j, by omega, by
        rw [hu.seg, hes, ho, hu.si] at hx
        exact hx⟩)
    rw [List.append_nil] at hget
    exact ⟨hget, (wide_setWide _ _ _).trans (hpart i j n hu hj ho)⟩
  have hpre : ∀ {u : Pc ω} {str : List (BitVec 8)} {o : BitVec 16}
      (i j n : Nat) (back : BitVec 16), Says own (depth + 36) str
        (fun x => LowLoad x ∨ InSlot (c.reg .si) x) c u →
      j + 4 ≤ n → i + n ≤ 20 → o = u.reg .si + BitVec.ofNat 16 (i + j) →
      ∃ v, (u.get32 .di .es o).call back
            ( bios_print_hexa_with_prefix B L.hexa fuel) = .ok v
        ∧ Says own (depth + 36) (str ++ (hexaPrefix ++ hexText
            ((load c.mem MEM_REGIONS_SEGMENT (c.reg .si + BitVec.ofNat 16 i)
              n).extractLsb' (8 * j) 32)))
          (fun x => LowLoad x ∨ InSlot (c.reg .si) x) c v := by
    intro u str o i j n back hu hj hn ho
    obtain ⟨hget, hdi⟩ := hload i j n hu hj hn ho
    obtain ⟨v, hv, hsay⟩ :=
      says_prefixed hB (hready hget) back hfuel hdepth
    rw [hdi] at hsay
    exact ⟨v, hv, hget.trans (hsay.area fun _ hx => Or.inl hx)⟩
  have hhex : ∀ {u : Pc ω} {str : List (BitVec 8)} {o : BitVec 16}
      (i j n : Nat) (back : BitVec 16), Says own (depth + 36) str
        (fun x => LowLoad x ∨ InSlot (c.reg .si) x) c u →
      j + 4 ≤ n → i + n ≤ 20 → o = u.reg .si + BitVec.ofNat 16 (i + j) →
      ∃ v, (u.get32 .di .es o).call back (bios_print_hexa B L.hexa fuel)
          = .ok v
        ∧ Says own (depth + 36) (str ++ hexText
            ((load c.mem MEM_REGIONS_SEGMENT (c.reg .si + BitVec.ofNat 16 i)
              n).extractLsb' (8 * j) 32))
          (fun x => LowLoad x ∨ InSlot (c.reg .si) x) c v := by
    intro u str o i j n back hu hj hn ho
    obtain ⟨hget, hdi⟩ := hload i j n hu hj hn ho
    obtain ⟨v, hv, hsay⟩ := says_hexa fuel hB (hready hget) back hfuel hdepth
    rw [hdi] at hsay
    exact ⟨v, hv, hget.trans (hsay.area fun _ hx => Or.inl hx)⟩
  have hgap : ∀ {u : Pc ω} {str : List (BitVec 8)} (back : BitVec 16),
      Says own (depth + 36) str
        (fun x => LowLoad x ∨ InSlot (c.reg .si) x) c u →
      ∃ v, print_between B fuel L.double_space back u = .ok v
        ∧ Says own (depth + 36) (str ++ doubleSpace)
          (fun x => LowLoad x ∨ InSlot (c.reg .si) x) c v := by
    intro u str back hu
    obtain ⟨v, hv, hsay⟩ := says_between (L := L) hB (hready hu) back
      (hready hu).gap (by decide) (Nat.lt_of_lt_of_le (by decide) hfuel) hdepth
    exact ⟨v, hv, hu.trans (hsay.area fun x hx => Or.inl hx)⟩
  have hstart : Says own (depth + 36) []
      (fun x => LowLoad x ∨ InSlot (c.reg .si) x) c c :=
    ⟨rfl, rfl, rfl, rfl, fun _ _ => rfl, (List.append_nil _).symm,
      fun _ hx => Or.inl hx⟩
  obtain ⟨u1, h1, s1⟩ := hpre 0 4 8 (L.back .baseHigh) hstart (by omega)
    (by omega) (o := c.reg .si + 4#16) rfl
  obtain ⟨u2, h2, s2⟩ := hhex 0 0 8 (L.back .baseLow) s1 (by omega)
    (by omega) (o := u1.reg .si) (BitVec.add_zero _).symm
  obtain ⟨u3, h3, s3⟩ := hgap (L.back .baseGap) s2
  obtain ⟨u4, h4, s4⟩ := hpre 8 4 8 (L.back .lengthHigh) s3 (by omega)
    (by omega) (o := u3.reg .si + 12#16) rfl
  obtain ⟨u5, h5, s5⟩ := hhex 8 0 8 (L.back .lengthLow) s4 (by omega)
    (by omega) (o := u4.reg .si + 8#16) rfl
  obtain ⟨u6, h6, s6⟩ := hgap (L.back .lengthGap) s5
  obtain ⟨u7, h7, s7⟩ := hpre 16 0 4 (L.back .type) s6 (by omega)
    (by omega) (o := u6.reg .si + 16#16) rfl
  obtain ⟨u8, h8, say8⟩ := says_between (L := L) hB (hready s7)
    (L.back .line) (hready s7).line (by decide)
    (Nat.lt_of_lt_of_le (by decide) hfuel) hdepth
  have s8 := s7.trans (say8.area fun x hx => Or.inl hx)
  have hrun : print_region B L fuel c
      = .ok ((u8.set .si (u8.reg .si + 0x18#16)).setWide .cx
        ((u8.set .si (u8.reg .si + 0x18#16)).wide .cx - 1#32)) := by
    unfold print_region
    simp only [h1, h2, h3, h4, h5, h6, h7, h8, bind, Except.bind]
  refine ⟨_, hrun, s8.sp, ?_, ?_, s8.seg, s8.mem, ?_, s8.loads⟩
  · show u8.reg .si + 24#16 = _
    rw [s8.si]
  · rw [wide_setWide]
    show u8.wide .cx - 1#32 = _
    rw [s8.cx]
  · refine s8.typed.trans (congrArg (typed c ++ ·) ?_)
    simp only [regionText, regionOf, hex64, List.append_assoc,
      List.nil_append, BitVec.add_zero, Nat.mul_zero, Nat.reduceMul,
      BitVec.extractLsb'_eq_self]

-- ============================================================= the lines

/-- The printer after `k` lines since `c`. -/
structure Lines (own : BitVec 64 → Prop) (depth : Nat) (c : Pc ω) (k : Nat)
    (d : Pc ω) : Prop where
  sp : d.reg .sp = c.reg .sp
  si : d.reg .si = slot k
  cx : d.wide .cx = c.wide .cx - BitVec.ofNat 32 k
  seg : d.seg = c.seg
  mem : c.Spares own (depth + 36) d
  typed : typed d = typed c ++ (List.range k).flatMap fun j =>
    regionText (regionOf c.mem MEM_REGIONS_SEGMENT (slot j))
  loads : ∀ x ∈ d.loads,
    x ∈ c.loads ∨ LowLoad x ∨ ∃ j < k, InSlot (slot j) x

theorem slot_succ (k : Nat) : slot k + 24#16 = slot (k + 1) := by
  apply BitVec.eq_of_toNat_eq
  simp only [slot, BitVec.toNat_add, BitVec.toNat_ofNat]
  omega

theorem print_region_line (hB : Teletype B own depth)
    (h : Ready own depth L c) (hes : c.seg .es = MEM_REGIONS_SEGMENT)
    (hap : Apart own (depth + 36) c) (hfuel : 8 ≤ fuel)
    (hdepth : depth + 36 ≤ 65536) {k : Nat} (hk : Lines own depth c k d) :
    ∃ e, print_region B L fuel d = .ok e ∧ Lines own depth c (k + 1) e := by
  obtain ⟨e, he, hl⟩ := print_region_spec hB (h.next hk.seg hk.sp hk.mem)
    ((congrFun hk.seg .es).trans hes) (hap.next hk.seg hk.sp) hfuel hdepth
  refine ⟨e, he, hl.sp.trans hk.sp, ?_, ?_, hl.seg.trans hk.seg, ?_, ?_, ?_⟩
  · rw [hl.si, hk.si]
    exact slot_succ k
  · rw [hl.cx, hk.cx, BitVec.ofNat_add]
    exact BitVec.sub_sub _ _ _
  · exact hk.mem.trans hl.mem (congrFun hk.seg .ss) hk.sp
  · have hmap : ∀ o n, load d.mem MEM_REGIONS_SEGMENT o n
        = load c.mem MEM_REGIONS_SEGMENT o n := fun o n =>
      load_congr fun _ _ => hk.mem _ ⟨hap.own _, hap.stack _⟩
    rw [hl.typed, hk.typed, hk.si, List.range_succ, List.flatMap_append,
      List.append_assoc]
    simp only [regionOf, hmap, List.flatMap_cons, List.flatMap_nil,
      List.append_nil]
  · intro x hx
    rcases hl.loads x hx with hx | hx | hx
    · rcases hk.loads x hx with hx | hx | ⟨j, hj, hx⟩
      · exact Or.inl hx
      · exact Or.inr (Or.inl hx)
      · exact Or.inr (Or.inr ⟨j, by omega, hx⟩)
    · exact Or.inr (Or.inl hx)
    · rw [hk.si] at hx
      exact Or.inr (Or.inr ⟨k, by omega, hx⟩)

theorem print_regions_loop_spec (hB : Teletype B own depth)
    (h : Ready own depth L c) (hes : c.seg .es = MEM_REGIONS_SEGMENT)
    (hap : Apart own (depth + 36) c) (hfuel : 8 ≤ fuel)
    (hdepth : depth + 36 ≤ 65536) (hsi : c.reg .si = slot 0) {rounds : Nat}
    (hpos : 0 < (c.wide .cx).toNat) (hrounds : (c.wide .cx).toNat ≤ rounds) :
    ∃ d, print_regions_loop B L fuel rounds c = .ok d
      ∧ Lines own depth c (c.wide .cx).toNat d := by
  refine Loop.attempt_counted (Lines own depth c) hpos ?_ ?_ ?_ hrounds ?_
  · exact fun k d _ hk =>
      print_region_line hB h hes hap hfuel hdepth hk
  · intro k d _ hlt hk
    rw [hk.cx, bne_iff_ne]
    intro hzero
    have hn := congrArg BitVec.toNat hzero
    simp only [BitVec.toNat_sub, BitVec.toNat_ofNat] at hn
    omega
  · intro d hd
    rw [hd.cx]
    simp
  · exact ⟨rfl, hsi, (BitVec.sub_zero _).symm, rfl, fun _ _ => rfl,
      (List.append_nil _).symm, fun _ hx => Or.inl hx⟩

-- =========================================================== the printout

/-- The machine as it prints the count. -/
def countStart (c : Pc ω) : Pc ω :=
  (((c.pusha.set .ax MEM_REGIONS_SEGMENT).setSeg .es
    MEM_REGIONS_SEGMENT).setWide .di 0#32).get16 .di .es PTR_MEM_REGIONS_COUNT

theorem countStart_sp (c : Pc ω) :
    (countStart c).reg .sp = c.reg .sp - 16#16 := c.pusha_sp

theorem countStart_loads (c : Pc ω) : (countStart c).loads
    = c.loads ++ [⟨linear MEM_REGIONS_SEGMENT PTR_MEM_REGIONS_COUNT, 2⟩] := rfl

/-- EDI holds the count word, its upper half zero. -/
theorem countStart_di (c : Pc ω) : (countStart c).wide .di
    = 0#16 ++ load c.pusha.mem MEM_REGIONS_SEGMENT PTR_MEM_REGIONS_COUNT 2 :=
  rfl

theorem countStart_ready (h : Ready own (depth + 16) L c)
    (hoff : Off own (c.seg .ss) (c.reg .sp + 2#16) 54) :
    Ready own depth L (countStart c) := by
  have hlast : ∀ {o : BitVec 16} {bytes : List (BitVec 8)},
      Lasting own (depth + 16 + 36) c o bytes →
      Lasting own (depth + 36) (countStart c) o bytes := by
    intro o bytes hl
    refine Lasting.below (j := 16) (hl.mono (by omega)) rfl rfl
      (countStart_sp c) fun b hb => c.pusha_mem hb
  refine ⟨hlast h.digits, hlast h.start, hlast h.gap, hlast h.line, ?_, h.ds⟩
  have hsp : (countStart c).reg .sp = c.reg .sp + 2#16 - 18#16 := by
    rw [countStart_sp]
    apply BitVec.eq_of_toNat_eq
    simp only [BitVec.toNat_sub, BitVec.toNat_add, BitVec.toNat_ofNat]
    omega
  rw [hsp]
  exact Off.below (j := 18) hoff

/-- A string printed from where SI is set to. -/
theorem says_string (fuel : Nat) (hB : Teletype B own depth) (h : Ready own depth L c)
    {str : List (BitVec 8)} {msg : BitVec 16} (back : BitVec 16)
    (hstr : Lasting own (depth + 36) c msg (str ++ [0#8])) (hz : 0#8 ∉ str)
    (hlen : str.length < fuel) (hdepth : depth + 36 ≤ 65536) :
    ∃ d, (c.set .si msg).call back (bios_print B fuel) = .ok d
      ∧ Says own (depth + 36) str LowLoad (c.set .si msg) d := by
  obtain ⟨t, ht⟩ : ∃ t : Pc ω, t = c.set .si msg := ⟨_, rfl⟩
  have hsi : t.reg .si = msg := by rw [ht]; rfl
  have hseg : t.seg = c.seg := by rw [ht]; rfl
  have hsp : t.reg .sp = c.reg .sp := by rw [ht]; rfl
  have hmem : t.mem = c.mem := by rw [ht]; rfl
  have hlast : Lasting own (depth + 18) t (t.reg .si) (str ++ [0#8]) := by
    rw [hsi]
    exact (hstr.mono (by omega)).next (fun b _ => congrFun hmem b)
      (congrFun hseg _) (congrFun hseg _) hsp
  rw [← ht]
  obtain ⟨d, hd, hs, hp⟩ := call_bios_print hB back hlen hz hlast
    (by rw [hseg, hsp]; exact h.off.mono (by omega)) (by omega)
  have hsay := (says_call (by decide) hs hp).mono (n := depth + 36) (by omega)
  rw [hseg, h.ds] at hsay
  exact ⟨d, hd, hsay.area fun _ hx => inString_low hx⟩

/-- The count's bytes. -/
def InCount (x : Load) : Prop :=
  x.addr = linear MEM_REGIONS_SEGMENT PTR_MEM_REGIONS_COUNT ∧ x.size ≤ 4

/-- The doubleword the printer counts down from. -/
def lineCount (c : Pc ω) : BitVec 32 :=
  load c.mem MEM_REGIONS_SEGMENT PTR_MEM_REGIONS_COUNT 4

/-- A line for each unit of the doubleword. -/
theorem print_memory_regions_spec (hB : Teletype B own depth)
    (h : Ready own (depth + 16) L c)
    (hoff : Off own (c.seg .ss) (c.reg .sp + 2#16) 54)
    (hap : Apart own (depth + 52) c) (hfuel : 8 ≤ fuel)
    (hdepth : depth + 54 ≤ 65536) {rounds : Nat}
    (hpos : 0 < (lineCount c).toNat) (hrounds : (lineCount c).toNat ≤ rounds) :
    ∃ d, print_memory_regions B L fuel rounds c = .ok d
      ∧ c.Returns own (depth + 52) d
      ∧ typed d = typed c
        ++ (hexText (0#16 ++ load c.mem MEM_REGIONS_SEGMENT
            PTR_MEM_REGIONS_COUNT 2) ++ crlf
          ++ (List.range (lineCount c).toNat).flatMap fun j =>
            regionText (regionOf c.mem MEM_REGIONS_SEGMENT (slot j)))
      ∧ ∀ x ∈ d.loads, x ∈ c.loads ∨ LowLoad x ∨ InCount x
        ∨ ∃ j < (lineCount c).toNat, InSlot (slot j) x := by
  have hpush : ∀ o n, load c.pusha.mem MEM_REGIONS_SEGMENT o n
      = load c.mem MEM_REGIONS_SEGMENT o n := fun o n =>
    load_congr fun _ _ => c.pusha_mem fun hu => hap.stack _ (hu.mono (by omega))
  have hready := countStart_ready h hoff
  have hapt : Apart own (depth + 36) (countStart c) := by
    refine ⟨hap.own, fun o hu => hap.stack o ?_⟩
    rw [countStart_sp] at hu
    exact Under.of_sub (n := depth + 36) (j := 16) hu
  -- the count
  obtain ⟨u1, h1, s1⟩ := says_hexa fuel hB hready (L.back .count)
    hfuel (by omega)
  rw [countStart_di, hpush] at s1
  -- its line end
  have hready1 := hready.next s1.seg s1.sp s1.mem
  obtain ⟨u2, h2, s2⟩ := says_string (L := L) fuel hB hready1
    (L.back .countLine) hready1.line (by decide)
    (Nat.lt_of_lt_of_le (by decide) hfuel) (by omega)
  have hseg2 : u2.seg = (countStart c).seg := s2.seg.trans s1.seg
  have hsp2 : u2.reg .sp = (countStart c).reg .sp := s2.sp.trans s1.sp
  have hmem2 : (countStart c).Spares own (depth + 36) u2 :=
    s1.mem.trans s2.mem (congrFun s1.seg .ss) s1.sp
  have htyped2 := s2.typed.trans (congrArg (· ++ crlf) s1.typed)
  -- the counter
  obtain ⟨u3, h3⟩ : ∃ u : Pc ω, u = (u2.get32 .cx .es
      PTR_MEM_REGIONS_COUNT).set .si 0x1018#16 := ⟨_, rfl⟩
  have hes2 : u2.seg .es = MEM_REGIONS_SEGMENT := congrFun hseg2 .es
  have hcx : u3.wide .cx = lineCount c := by
    rw [h3]
    refine (wide_setWide _ _ _).trans ?_
    unfold dword lineCount
    rw [hes2, ← hpush]
    exact load_congr fun _ _ => hmem2 _ ⟨hapt.own _, hapt.stack _⟩
  have hseg3 : u3.seg = (countStart c).seg := by rw [h3]; exact hseg2
  have hsp3 : u3.reg .sp = (countStart c).reg .sp := by rw [h3]; exact hsp2
  have hmem3 : (countStart c).Spares own (depth + 36) u3 := by
    rw [h3]
    exact hmem2
  rw [← hcx] at hrounds
  obtain ⟨u4, h4, s4⟩ := print_regions_loop_spec (L := L)
    hB (hready.next hseg3 hsp3 hmem3) (congrFun hseg3 .es)
    (hapt.next hseg3 hsp3) hfuel (by omega) (by rw [h3]; rfl)
    (by rw [hcx]; exact hpos) hrounds
  rw [hcx] at s4
  have hret := leave_returns (c := c) (d := u4) (n := depth + 36)
    (congrFun (s4.seg.trans hseg3) .ss)
    (s4.sp.trans (hsp3.trans (countStart_sp c)))
    (hmem3.trans s4.mem (congrFun hseg3 .ss) hsp3)
    (by
      have hback : c.reg .sp + 2#16 = c.reg .sp + 2#16 - 0#16 :=
        (BitVec.sub_zero _).symm
      rw [hback]
      exact Off.below (j := 0) (hoff.mono (by omega)))
    (by omega)
  refine ⟨u4.popa.ret, ?_, hret, ?_, ?_⟩
  · unfold print_memory_regions
    show (countStart c).call (L.back .count) _ >>= _ = _
    rw [h1]
    show (u1.set .si L.newline).call (L.back .countLine) _ >>= _ = _
    rw [h2]
    show print_regions_loop B L fuel rounds ((u2.get32 .cx .es
      PTR_MEM_REGIONS_COUNT).set .si 0x1018#16) >>= _ = _
    rw [← h3, h4]
    rfl
  · have hmap : ∀ o n, load u3.mem MEM_REGIONS_SEGMENT o n
        = load c.mem MEM_REGIONS_SEGMENT o n := by
      intro o n
      rw [← hpush]
      exact load_congr fun _ _ => hmem3 _ ⟨hapt.own _, hapt.stack _⟩
    have htyped3 : typed u3 = typed u2 := by
      rw [h3]
      rfl
    refine s4.typed.trans ?_
    rw [htyped3, htyped2]
    simp only [regionOf, hmap, List.append_assoc]
    rfl
  · intro x hx
    rcases s4.loads x hx with hx | hx | hx
    · rw [h3] at hx
      rcases List.mem_append.1 hx with hx | hx
      · rcases s2.loads x hx with hx | hx
        · rcases s1.loads x hx with hx | hx
          · rcases List.mem_append.1 hx with hx | hx
            · exact Or.inl hx
            · rw [List.mem_singleton.1 hx]
              exact Or.inr (Or.inr (Or.inl ⟨rfl, Nat.le_succ_of_le
                (Nat.le_succ 2)⟩))
          · exact Or.inr (Or.inl hx)
        · exact Or.inr (Or.inl hx)
      · rw [List.mem_singleton.1 hx]
        refine Or.inr (Or.inr (Or.inl ⟨?_, Nat.le_refl 4⟩))
        show linear (u2.seg .es) _ = _
        rw [hes2]
    · exact Or.inr (Or.inl hx)
    · exact Or.inr (Or.inr (Or.inr hx))

/-- What is asked of the printout of the regions `es`: it comes back, the
text is the map's and no other map's, and the region segment is not read
past the last region. -/
structure Faithful (own : BitVec 64 → Prop) (n : Nat) (es : List Region)
    (c d : Pc ω) : Prop where
  returns : c.Returns own n d
  typed : typed d = typed c ++ mapText es.length es
  readable : ∀ (k : Nat) (fs : List Region),
    FirstStage.typed d = FirstStage.typed c ++ mapText k fs → fs = es
  loads : ∀ x ∈ d.loads, x ∈ c.loads
    ∨ x.addr.toNat + x.size ≤ 0x20000 + 0x1018 + 24 * es.length

/-- The count word, and the two bytes after it above it. -/
theorem lineCount_toNat {n : Nat} (hn : n < 65536)
    (hcount : load c.mem MEM_REGIONS_SEGMENT PTR_MEM_REGIONS_COUNT 2
      = BitVec.ofNat 16 n) :
    (lineCount c).toNat
      = n + 65536 * (load c.mem MEM_REGIONS_SEGMENT 0x1002#16 2).toNat := by
  have hlo : (lineCount c).extractLsb' 0 16 = BitVec.ofNat 16 n :=
    ((load_part c.mem MEM_REGIONS_SEGMENT PTR_MEM_REGIONS_COUNT
      (j := 0) (k := 2) (n := 4) (by omega)).symm.trans hcount)
  have hhi : (lineCount c).extractLsb' 16 16
      = load c.mem MEM_REGIONS_SEGMENT 0x1002#16 2 :=
    (load_part c.mem MEM_REGIONS_SEGMENT PTR_MEM_REGIONS_COUNT
      (j := 2) (k := 2) (n := 4) (by omega)).symm
  have h1 := congrArg BitVec.toNat hlo
  rw [← hhi]
  simp only [BitVec.extractLsb'_toNat, BitVec.toNat_ofNat] at h1 ⊢
  omega

/-- The lines printed are those of the list, as many as there are. -/
theorem lines_eq {m : Mem} {es : List Region}
    (h : ∀ i (hi : i < es.length),
      RegionAt m MEM_REGIONS_SEGMENT (slot i) es[i]) :
    ((List.range es.length).flatMap fun j =>
      regionText (regionOf m MEM_REGIONS_SEGMENT (slot j)))
      = es.flatMap regionText := by
  rw [← List.flatMap_map]
  refine congrArg (List.flatMap regionText) (List.ext_getElem ?_ ?_)
  · rw [List.length_map, List.length_range]
  · intro i h1 h2
    rw [List.getElem_map, List.getElem_range]
    exact (h i h2).eq

theorem mapText_count {n : Nat} (hn : n < 65536) (es : List Region) :
    hexText (0#16 ++ BitVec.ofNat 16 n) ++ crlf ++ es.flatMap regionText
      = mapText n es := by
  have hword : (0#16 ++ BitVec.ofNat 16 n : BitVec 32) = BitVec.ofNat 32 n := by
    apply BitVec.eq_of_toNat_eq
    rw [BitVec.toNat_append]
    simp only [BitVec.toNat_ofNat, Nat.shiftLeft_eq, Nat.zero_mod,
      Nat.zero_mul, Nat.zero_or]
    omega
  rw [hword]
  rfl

/-- A faithful printout has a line for each region and no more. -/
theorem Faithful.lineCount {n : Nat} {es : List Region} {head : BitVec 32}
    {line : Nat → Region} {k : Nat} (h : Faithful own n es c d)
    (htext : FirstStage.typed d = FirstStage.typed c ++ (hexText head ++ crlf
      ++ (List.range k).flatMap fun j => regionText (line j))) :
    k = es.length := by
  have hsame := congrArg List.length
    (List.append_cancel_left (htext.symm.trans h.typed))
  have hrest : ((List.range k).flatMap fun j => regionText (line j)).length
      = 52 * k := by
    rw [← List.flatMap_map, lines_length, List.length_map,
      List.length_range]
  rw [mapText_length, List.length_append, List.length_append, hrest,
    hexText_length] at hsame
  have hcrlf : crlf.length = 2 := rfl
  omega

/-- The printout is faithful exactly when the bytes after the count are
zero. -/
theorem print_memory_regions_iff (hB : Teletype B own depth)
    (h : Ready own (depth + 16) L c)
    (hoff : Off own (c.seg .ss) (c.reg .sp + 2#16) 54)
    (hap : Apart own (depth + 52) c) (hfuel : 8 ≤ fuel)
    (hdepth : depth + 54 ≤ 65536) {es : List Region} {rounds : Nat}
    (hlen : 1 ≤ es.length ∧ es.length ≤ 2559)
    (hcount : load c.mem MEM_REGIONS_SEGMENT PTR_MEM_REGIONS_COUNT 2
      = BitVec.ofNat 16 es.length)
    (hregions : ∀ i (hi : i < es.length),
      RegionAt c.mem MEM_REGIONS_SEGMENT (slot i) es[i])
    (hrounds : (lineCount c).toNat ≤ rounds) :
    (∃ d, print_memory_regions B L fuel rounds c = .ok d
      ∧ Faithful own (depth + 52) es c d)
      ↔ load c.mem MEM_REGIONS_SEGMENT 0x1002#16 2 = 0#16 := by
  have hlines := lineCount_toNat (c := c) (by omega) hcount
  obtain ⟨d, hd, hret, htext, hloads⟩ := print_memory_regions_spec
    hB h hoff hap hfuel hdepth (by omega) hrounds
  constructor
  · rintro ⟨d', hd', hf⟩
    rw [hd] at hd'
    cases hd'
    have hk := hf.lineCount htext
    apply BitVec.eq_of_toNat_eq
    rw [BitVec.toNat_ofNat]
    omega
  · intro hzero
    have hn : (lineCount c).toNat = es.length := by
      rw [hlines, hzero]
      rfl
    rw [hn] at htext hloads
    rw [hcount, lines_eq hregions, mapText_count (by omega)] at htext
    refine ⟨d, hd, hret, htext, ?_, ?_⟩
    · intro k fs hfs
      exact (mapText_inj (List.append_cancel_left (htext.symm.trans hfs))).symm
    · intro x hx
      rcases hloads x hx with hx | hx | ⟨haddr, hsize⟩ | ⟨j, hj, i, hi, rfl⟩
      · exact Or.inl hx
      · unfold LowLoad at hx
        exact Or.inr (by omega)
      · refine Or.inr ?_
        rw [haddr, linear_toNat]
        show 16 * 0x2000 + 0x1000 + _ ≤ _
        omega
      · refine Or.inr ?_
        rw [linear_toNat]
        show 16 * 0x2000 + (slot j + BitVec.ofNat 16 i).toNat + 4 ≤ _
        rw [slot_add (by omega) (by omega)]
        omega

-- =============================================================== a sample

def printLabels : MapLabels :=
  ⟨0#16, 0xC030#16, 0xC020#16, ⟨0xC000#16, 0xC010#16, 0#16, 0#16⟩,
    fun _ => 0#16⟩

/-- The strings and digits. -/
def printStrings (i : Nat) : BitVec 8 :=
  if i < 0xC010 then hexaDigits.getD (i - 0xC000) 0#8
  else if i < 0xC020 then hexaPrefix.getD (i - 0xC010) 0#8
  else if i < 0xC030 then doubleSpace.getD (i - 0xC020) 0#8
  else crlf.getD (i - 0xC030) 0#8

/-- Those, and the byte two after the count. -/
def printMem (stale : BitVec 8) : Mem := fun b =>
  if b.toNat = 0x21002 then stale else printStrings b.toNat

/-- The machine before the scan. -/
def stalePc (stale : BitVec 8) : Pc Unit :=
  { scanPc with mem := store (printMem stale) 0#16 0xAFFE#16 2 0xC08D#16 }

theorem mapBios_teletype (fin : Ending) :
    Teletype (mapBios fin) (fun _ => False) 0 :=
  fun _ _ => ⟨fun _ _ => rfl, fun _ _ => rfl, rfl, fun _ _ => rfl⟩

theorem mapBios_ds (fin : Ending) (q : Pc Unit) :
    (mapBios fin 0x15#8 q).seg .ds = q.seg .ds := by
  unfold mapBios
  split
  · split
    · rfl
    · rfl
  · rfl

/-- The return address is all that is on the stack. -/
theorem stalePc_mem {stale : BitVec 8} {b : BitVec 64}
    (h : b ≠ 0xAFFE#64 ∧ b ≠ 0xAFFF#64) :
    (stalePc stale).mem b = printMem stale b := by
  show store (printMem stale) 0#16 0xAFFE#16 2 0xC08D#16 b = _
  refine fill_out _ _ fun k hk heq => ?_
  have hk2 : k = 0 ∨ k = 1 := by omega
  rcases hk2 with rfl | rfl
  · exact h.1 (heq.trans (by decide))
  · exact h.2 (heq.trans (by decide))

/-- The printer's strings lie above the stack, and stay. -/
theorem printMem_lasting {q : Pc Unit} {stale : BitVec 8} {n : Nat}
    {o : BitVec 16} {bytes : List (BitVec 8)} (hn : n ≤ 0xAFFE)
    (hds : q.seg .ds = 0#16) (hss : q.seg .ss = 0#16)
    (hsp : q.reg .sp = 0xAFFE#16)
    (hmem : ∀ o : BitVec 16, 0xB000 ≤ o.toNat →
      q.mem (linear 0#16 o) = printMem stale (linear 0#16 o))
    (hbytes : ∀ k < bytes.length, 0xB000 ≤ (o + BitVec.ofNat 16 k).toNat
      ∧ printStrings (o + BitVec.ofNat 16 k).toNat = bytes.getD k 0#8) :
    Lasting (fun _ => False) n q o bytes := by
  refine ⟨fun k hk => ?_, fun k hk => ⟨fun h => h, ?_⟩⟩
  · have hlin : (linear 0#16 (o + BitVec.ofNat 16 k)).toNat
        = (o + BitVec.ofNat 16 k).toNat := by
      rw [linear_toNat]
      show 16 * 0 + _ = _
      omega
    rw [hds, hmem _ (hbytes k hk).1, printMem, hlin, if_neg (by omega)]
    exact (hbytes k hk).2
  · rw [hds, hss, hsp, under_iff (p := 0xAFFE#16) hn, linear_toNat]
    have hlow := (hbytes k hk).1
    show ¬ (_ ∧ 16 * 0 + _ < 16 * 0 + 0xAFFE)
    omega

/-- The machine that calls the printer, after the scan of one region. -/
theorem scanned (stale : BitVec 8) : ∃ d,
    memory_scanner (mapBios .last) printLabels 1 1 (stalePc stale) = .ok d
      ∧ Ready (fun _ => False) 16 printLabels (d.push 0xC090#16)
      ∧ (d.push 0xC090#16).seg .ss = 0#16
      ∧ (d.push 0xC090#16).reg .sp = 0xAFFE#16
      ∧ load (d.push 0xC090#16).mem MEM_REGIONS_SEGMENT
        PTR_MEM_REGIONS_COUNT 2 = 1#16
      ∧ (∀ i (h : i < [lowRegion].length), RegionAt (d.push 0xC090#16).mem
        MEM_REGIONS_SEGMENT (slot i) [lowRegion][i])
      ∧ load (d.push 0xC090#16).mem MEM_REGIONS_SEGMENT 0x1002#16 2
        = 0#8 ++ stale := by
  have hunder : ∀ n ≤ 0xB000, ∀ o,
      ¬ Under 0#16 0xB000#16 n (linear MEM_REGIONS_SEGMENT o) :=
    fun n hn o => scanPc_under hn o
  have hap : Apart (fun _ => False) 16 (stalePc stale) := by
    refine ⟨fun _ h => h, fun o hu => hunder 18 (by omega) o ?_⟩
    exact Under.of_sub (j := 2) hu
  have hoff : Off (ownMap fun _ => False) ((stalePc stale).seg .ss)
      ((stalePc stale).reg .sp + 2#16) 18 := by
    rintro b hu (h | ⟨o, rfl⟩)
    · exact h
    · exact hunder 18 (by omega) o hu
  obtain ⟨d, hd, hret, hcount, hregions, htable⟩ :=
    @memory_scanner_spec _ _ printLabels _ 0 1 _ _ 1
    (mapBios_serves (Or.inl rfl) _ _) (by decide) hap hoff (by omega)
    (by decide)
  have hds : d.seg .ds = 0#16 := memory_scanner_ds (mapBios_ds .last) hd
  have hss : d.seg .ss = 0#16 := hret.ss
  have hsp : d.reg .sp = 0xB000#16 := hret.sp
  have hpush : ∀ o n, load (d.push 0xC090#16).mem MEM_REGIONS_SEGMENT o n
      = load d.mem MEM_REGIONS_SEGMENT o n := fun o n =>
    load_congr fun _ _ => d.push_mem _ (by
      rw [hss, hsp]
      exact hunder 2 (by omega) _)
  -- above the stack nothing has changed
  have hhigh : ∀ o : BitVec 16, 0xB000 ≤ o.toNat →
      (d.push 0xC090#16).mem (linear 0#16 o)
        = printMem stale (linear 0#16 o) := by
    intro o ho
    have hlow : ∀ {p : BitVec 16} {n : Nat}, p.toNat ≤ 0xB000 → n ≤ p.toNat →
        ¬ Under 0#16 p n (linear 0#16 o) := by
      intro p n hp hn
      rw [under_iff hn, linear_toNat]
      show ¬ (_ ∧ 16 * 0 + o.toNat < 16 * 0 + p.toNat)
      omega
    rw [d.push_mem, hret.mem]
    · refine stalePc_mem ⟨fun heq => ?_, fun heq => ?_⟩
      · have hinj : o = 0xAFFE#16 := linear_inj heq
        rw [hinj] at ho
        exact absurd ho (by decide)
      · have hinj : o = 0xAFFF#16 := linear_inj heq
        rw [hinj] at ho
        exact absurd ho (by decide)
    · refine ⟨?_, hlow (p := 0xAFFE#16) (by decide) (by decide)⟩
      rintro (h | ⟨o', heq⟩)
      · exact h
      · have hn := congrArg BitVec.toNat heq
        rw [linear_toNat, linear_toNat] at hn
        have h16 : (16 * (0#16).toNat + o.toNat)
            = 16 * MEM_REGIONS_SEGMENT.toNat + o'.toNat := hn
        have := o.isLt
        rw [show MEM_REGIONS_SEGMENT.toNat = 0x2000 from rfl,
          show (0#16).toNat = 0 from rfl] at h16
        omega
    · rw [hss, hsp]
      exact hlow (p := 0xB000#16) (n := 2) (by decide) (by decide)
  have hpsp : (d.push 0xC090#16).reg .sp = 0xAFFE#16 := by
    rw [push_sp, hsp]
    rfl
  have hlast : ∀ {o : BitVec 16} {bytes : List (BitVec 8)},
      (∀ k < bytes.length, 0xB000 ≤ (o + BitVec.ofNat 16 k).toNat
        ∧ printStrings (o + BitVec.ofNat 16 k).toNat = bytes.getD k 0#8) →
      Lasting (fun _ => False) (16 + 36) (d.push 0xC090#16) o bytes :=
    fun h => printMem_lasting (by omega) hds hss hpsp hhigh h
  refine ⟨d, hd, ⟨hlast (by decide +kernel), hlast (by decide +kernel),
    hlast (by decide +kernel), hlast (by decide +kernel), fun _ _ h => h,
    hds⟩, hss, hpsp, (hpush _ _).trans hcount, ?_, ?_⟩
  · intro i hi
    refine (hregions i hi).congr fun k _ => d.push_mem _ ?_
    rw [hss, hsp]
    exact hunder 2 (by omega) _
  · rw [hpush]
    have hbyte : ∀ k < 2, d.mem (linear MEM_REGIONS_SEGMENT
        (0x1002#16 + BitVec.ofNat 16 k)) = (stalePc stale).mem (linear
          MEM_REGIONS_SEGMENT (0x1002#16 + BitVec.ofNat 16 k)) := by
      intro k hk
      have hk2 : k = 0 ∨ k = 1 := by omega
      rcases hk2 with rfl | rfl
      · exact htable _ (by decide) (by decide) (Or.inl (by decide))
      · exact htable _ (by decide) (by decide) (Or.inl (by decide))
    refine load_eq fun k hk => ?_
    rw [hbyte k hk, stalePc_mem]
    · have hk2 : k = 0 ∨ k = 1 := by omega
      rcases hk2 with rfl | rfl
      · rw [show linear MEM_REGIONS_SEGMENT (0x1002#16 + BitVec.ofNat 16 0)
          = 0x21002#64 by decide]
        exact (if_pos rfl).trans BitVec.extractLsb'_append_eq_right.symm
      · rw [show linear MEM_REGIONS_SEGMENT (0x1002#16 + BitVec.ofNat 16 1)
          = 0x21003#64 by decide]
        refine Eq.trans ?_ BitVec.extractLsb'_append_eq_left.symm
        exact (if_neg (by decide)).trans (by decide)
    · have hk2 : k = 0 ∨ k = 1 := by omega
      rcases hk2 with rfl | rfl
      · decide
      · decide

theorem printPc_apart {n : Nat} {q : Pc Unit} (hn : n ≤ 0xAFFE)
    (hss : q.seg .ss = 0#16) (hsp : q.reg .sp = 0xAFFE#16) :
    Apart (fun _ => False) n q := by
  refine ⟨fun _ h => h, fun o => ?_⟩
  rw [hss, hsp, under_iff (p := 0xAFFE#16) hn, linear_toNat]
  show ¬ (_ ∧ 16 * 0x2000 + o.toNat < 16 * 0 + 0xAFFE)
  omega

theorem print_memory_regions_iff_sample : ∃ d : Pc Unit,
    memory_scanner (mapBios .last) printLabels 1 1 (stalePc 0#8) = .ok d
      ∧ ((∃ e, print_memory_regions (mapBios .last) printLabels 8 1
            (d.push 0xC090#16) = .ok e
          ∧ Faithful (fun _ => False) 52 [lowRegion] (d.push 0xC090#16) e)
        ↔ load (d.push 0xC090#16).mem MEM_REGIONS_SEGMENT 0x1002#16 2
          = 0#16) := by
  obtain ⟨d, hd, hready, hss, hsp, hcount, hregions, hupper⟩ := scanned 0#8
  have hlines := lineCount_toNat (n := 1) (by omega) hcount
  rw [hupper] at hlines
  exact ⟨d, hd, @print_memory_regions_iff _ _ _ _ 0 8 _
    (mapBios_teletype .last) hready (fun _ _ h => h)
    (printPc_apart (by omega) hss hsp) (by omega) (by omega) [lowRegion]
    1 (by decide) hcount hregions (Nat.le_of_eq hlines)⟩

/-- A one left two bytes after the count: 65537 lines for one region. -/
theorem stale_count_misprints : ∃ d : Pc Unit,
    memory_scanner (mapBios .last) printLabels 1 1 (stalePc 1#8) = .ok d
      ∧ ∀ fuel rounds, 8 ≤ fuel → 65537 ≤ rounds → ∃ e,
        print_memory_regions (mapBios .last) printLabels fuel rounds
          (d.push 0xC090#16) = .ok e
        ∧ ¬ Faithful (fun _ => False) 52 [lowRegion] (d.push 0xC090#16) e := by
  obtain ⟨d, hd, hready, hss, hsp, hcount, -, hupper⟩ := scanned 1#8
  have hlines := lineCount_toNat (n := 1) (by omega) hcount
  rw [hupper] at hlines
  refine ⟨d, hd, fun fuel rounds hfuel hrounds => ?_⟩
  obtain ⟨e, he, -, htext, -⟩ := @print_memory_regions_spec _ _ _ _ 0 _ _
    (mapBios_teletype .last) hready (fun _ _ h => h)
    (printPc_apart (by omega) hss hsp) hfuel (by omega) rounds
    (by rw [hlines]; decide) (by rw [hlines]; exact hrounds)
  refine ⟨e, he, fun hf => ?_⟩
  have hk := hf.lineCount htext
  rw [hlines] at hk
  exact absurd hk (by decide)

end BootLoader.SecondStage
