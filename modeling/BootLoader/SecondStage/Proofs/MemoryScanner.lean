/-
The scan of the memory map, as a dialogue with the BIOS.

# The dialogue

`Serves B own depth fin es w x` says what a BIOS with hidden state `w` does
for whoever asks with EBX = `x`: it hands out the regions `es` one by one,
and then ends the list in the way `fin`. It may go by EBX, by its hidden
state, or by both: the next question is only assumed to carry what the last
answer gave.

# The table

Region `i` stands at offset `0x1018 + 24 i` of segment 0x2000. The 2559th
slot ends where the segment ends, so up to there offsets do not wrap and
the invariant (`Scanning`) is about numbers: the slots below DI are the
regions so far, the bytes above it have not changed. After the last round
of a full table DI itself has wrapped to zero.
-/
import BootLoader.SecondStage.MemoryScanner
import BootLoader.FirstStage.Proofs.BiosPrint

namespace BootLoader.SecondStage

open FlatMemory Segment RealMode Pc FirstStage

variable {ω : Type _} {B : Bios ω} {L : MapLabels} {own : BitVec 64 → Prop}
  {depth fuel : Nat} {c d q : Pc ω}

-- ========================================================== the dialogue

/-- One region as E820h reports it. -/
structure Region where
  base : BitVec 64
  length : BitVec 64
  type : BitVec 32
  deriving DecidableEq, Repr

/-- The region's twenty bytes at `s:o`. -/
structure RegionAt (m : Mem) (s o : BitVec 16) (e : Region) : Prop where
  base : load m s o 8 = e.base
  length : load m s (o + 8#16) 8 = e.length
  type : load m s (o + 16#16) 4 = e.type

/-- The question E820h expects. -/
structure Asks (c : Pc ω) : Prop where
  ax : c.wide .ax = 0xE820#32
  dx : c.wide .dx = MEM_MAGIC_NUMBER
  cx : c.wide .cx = 0x18#32

/-- The answer with region `e`: at ES:DI, twenty or twenty-four bytes, and
nothing else of the caller's memory changed. -/
structure Answered (own : BitVec 64 → Prop) (depth : Nat) (e : Region)
    (c d : Pc ω) : Prop where
  carry : d.carry = false
  magic : d.wide .ax = MEM_MAGIC_NUMBER
  es : d.seg .es = c.seg .es
  di : d.reg .di = c.reg .di
  ss : d.seg .ss = c.seg .ss
  sp : d.reg .sp = c.reg .sp
  region : RegionAt d.mem (c.seg .es) (c.reg .di) e
  frame : ∀ b, c.Fixed own depth b →
    (∀ k < 24, b ≠ linear (c.seg .es) (c.reg .di + BitVec.ofNat 16 k)) →
    d.mem b = c.mem b

/-- How a list ends: with EBX zero in the last answer, or in place of a
further answer with the carry flag set (EAX holding "SMAP" or not), or
without the flag and without "SMAP". -/
inductive Ending
  | last | carry (smap : Bool) | magic
  deriving DecidableEq, Repr

/-- The answer that ends a list, where one does. -/
def Ending.Answer : Ending → Pc ω → Prop
  | .last, _ => False
  | .carry smap, d =>
      d.carry = true ∧ (d.wide .ax = MEM_MAGIC_NUMBER ↔ smap = true)
  | .magic, d => d.carry = false ∧ d.wide .ax ≠ MEM_MAGIC_NUMBER

def Serves (B : Bios ω) (own : BitVec 64 → Prop) (depth : Nat)
    (fin : Ending) : List Region → ω → BitVec 32 → Prop
  | [], w, x => ∀ q : Pc ω, q.bios = w → q.wide .bx = x → Asks q →
      fin.Answer (B 0x15#8 q)
  | e :: es, w, x => ∀ q : Pc ω, q.bios = w → q.wide .bx = x → Asks q →
      Answered own depth e q (B 0x15#8 q)
        ∧ ((B 0x15#8 q).wide .bx = 0#32 ↔ es = [] ∧ fin = .last)
        ∧ ((B 0x15#8 q).wide .bx ≠ 0#32 →
          Serves B own depth fin es (B 0x15#8 q).bios
            ((B 0x15#8 q).wide .bx))

-- ========================================================== one question

/-- The machine the BIOS is asked on. -/
def question (c : Pc ω) : Pc ω :=
  (((c.setWide .dx MEM_MAGIC_NUMBER).put16 .es (c.reg .di + 20#16)
    1#16).setWide .ax 0xE820#32).setWide .cx 0x18#32

theorem scan_ask_eq (c : Pc ω) : scan_ask B c = (question c).int B 0x15#8 :=
  rfl

theorem question_asks (c : Pc ω) : Asks (question c) := by
  refine ⟨?_, ?_, wide_setWide _ _ _⟩
  · exact (wide_setWide_of_ne _ _ (by decide)).trans (wide_setWide _ _ _)
  · exact (wide_setWide_of_ne _ _ (by decide)).trans
      ((wide_setWide_of_ne _ _ (by decide)).trans (wide_setWide c _ _))

theorem question_reg (c : Pc ω) {r : Gpr} (hdx : r ≠ .dx) (hax : r ≠ .ax)
    (hcx : r ≠ .cx) : (question c).reg r = c.reg r := by
  simp [question, hdx, hax, hcx]

theorem question_bx (c : Pc ω) : (question c).wide .bx = c.wide .bx := by
  simp [question, wide]

theorem question_mem (c : Pc ω) : (question c).mem
    = store c.mem (c.seg .es) (c.reg .di + 20#16) 2 1#16 := rfl

-- ======================================================= how a scan ends

theorem memory_scan_failed_ne : memory_scan_failed B L fuel c ≠ .ok d := by
  intro h
  obtain ⟨e, -, hhang⟩ := bind_inv h
  cases hhang

/-- A list that does not end with EBX zero never returns; one that does
never hangs. -/
theorem loop_control (L : MapLabels) (fuel : Nat) {fin : Ending} :
    ∀ (es : List Region) (rounds : Nat) (c : Pc ω),
    Serves B own depth fin es c.bios (c.wide .bx) →
    (fin ≠ .last → ∀ d, memory_scanner_loop B L fuel rounds c ≠ .ok d)
      ∧ (fin = .last →
        memory_scanner_loop B L fuel rounds c ≠ .error .hang) := by
  intro es
  induction es with
  | nil =>
      intro rounds c hs
      have hans := hs (question c) rfl (question_bx c) (question_asks c)
      cases rounds with
      | zero =>
          refine ⟨fun _ d h => ?_, fun _ h => ?_⟩
          · cases h
          · cases h
      | succ rounds =>
          cases fin with
          | last => exact hans.elim
          | carry smap =>
              refine ⟨fun _ d h => ?_, fun h => by cases h⟩
              have hc : (scan_ask B c).carry = true := hans.1
              simp only [memory_scanner_loop, hc, if_true] at h
              exact memory_scan_failed_ne h
          | magic =>
              refine ⟨fun _ d h => ?_, fun h => by cases h⟩
              have hc : (scan_ask B c).carry = false := hans.1
              have hm : (scan_ask B c).wide .ax ≠ MEM_MAGIC_NUMBER := hans.2
              simp only [memory_scanner_loop, hc, Bool.false_eq_true, if_false,
                if_pos hm] at h
              exact memory_scan_failed_ne h
  | cons e es ih =>
      intro rounds c hs
      obtain ⟨hans, hzero, hnext⟩ :=
        hs (question c) rfl (question_bx c) (question_asks c)
      cases rounds with
      | zero =>
          refine ⟨fun _ d h => ?_, fun _ h => ?_⟩
          · cases h
          · cases h
      | succ rounds =>
          have hc : (scan_ask B c).carry = false := hans.carry
          have hm : (scan_ask B c).wide .ax = MEM_MAGIC_NUMBER := hans.magic
          have hbx : (scan_take (scan_ask B c)).wide .bx
              = (B 0x15#8 (question c)).wide .bx := rfl
          have hround : memory_scanner_loop B L fuel (rounds + 1) c
              = if (B 0x15#8 (question c)).wide .bx ≠ 0#32 then
                  memory_scanner_loop B L fuel rounds
                    (scan_take (scan_ask B c))
                else .ok (scan_take (scan_ask B c)) := by
            simp only [memory_scanner_loop, hc, Bool.false_eq_true, if_false,
              hm, ne_eq, not_true_eq_false, hbx]
          rw [hround]
          by_cases h0 : (B 0x15#8 (question c)).wide .bx = 0#32
          · rw [if_neg (not_not_intro h0)]
            obtain ⟨-, hlast⟩ := hzero.1 h0
            refine ⟨fun hne => absurd hlast hne, fun _ h => ?_⟩
            cases h
          · rw [if_pos h0]
            exact ih rounds _ (hnext h0)

-- ========================================================== the invariant

/-- The offset of slot `i`. -/
def slot (i : Nat) : BitVec 16 := BitVec.ofNat 16 (0x1018 + 24 * i)

theorem slot_toNat {i : Nat} (hi : i < 2559) :
    (slot i).toNat = 0x1018 + 24 * i := by
  unfold slot
  rw [BitVec.toNat_ofNat]
  omega

/-- Bytes of the region segment, for the frames. -/
def InMap (b : BitVec 64) : Prop := ∃ o, b = linear MEM_REGIONS_SEGMENT o

/-- What may change beside the stack while the scanner runs. -/
def ownMap (own : BitVec 64 → Prop) (b : BitVec 64) : Prop := own b ∨ InMap b

/-- The BIOS and the stack keep out of the region segment. -/
structure Apart (own : BitVec 64 → Prop) (n : Nat) (c : Pc ω) : Prop where
  own : ∀ o, ¬ own (linear MEM_REGIONS_SEGMENT o)
  stack : ∀ o, ¬ Under (c.seg .ss) (c.reg .sp) n
    (linear MEM_REGIONS_SEGMENT o)

theorem RegionAt.congr {m m' : Mem} {s o : BitVec 16} {e : Region}
    (h : RegionAt m s o e)
    (hm : ∀ k < 24, m' (linear s (o + BitVec.ofNat 16 k))
      = m (linear s (o + BitVec.ofNat 16 k))) : RegionAt m' s o e := by
  have hoff : ∀ j k : Nat, o + BitVec.ofNat 16 j + BitVec.ofNat 16 k
      = o + BitVec.ofNat 16 (j + k) := by
    intro j k
    rw [BitVec.add_assoc, BitVec.ofNat_add]
  refine ⟨?_, ?_, ?_⟩
  · rw [load_congr fun k hk => hm k (by omega)]
    exact h.base
  · rw [load_congr (m := m) fun k hk => ?_]
    · exact h.length
    · show m' (linear s (o + BitVec.ofNat 16 8 + _)) = m (linear s _)
      rw [hoff 8 k]
      exact hm (8 + k) (by omega)
  · rw [load_congr (m := m) fun k hk => ?_]
    · exact h.type
    · show m' (linear s (o + BitVec.ofNat 16 16 + _)) = m (linear s _)
      rw [hoff 16 k]
      exact hm (16 + k) (by omega)

/-- The scanner between two questions, with the regions `es` taken since
`c`. -/
structure Scanning (own : BitVec 64 → Prop) (depth : Nat) (c : Pc ω)
    (es : List Region) (d : Pc ω) : Prop where
  segment : d.seg .es = MEM_REGIONS_SEGMENT
  ss : d.seg .ss = c.seg .ss
  sp : d.reg .sp = c.reg .sp
  di : d.reg .di = slot es.length
  count : load d.mem MEM_REGIONS_SEGMENT PTR_MEM_REGIONS_COUNT 2
    = BitVec.ofNat 16 es.length
  regions : ∀ i (h : i < es.length),
    RegionAt d.mem MEM_REGIONS_SEGMENT (slot i) es[i]
  table : ∀ o : BitVec 16, o.toNat ≠ 0x1000 → o.toNat ≠ 0x1001 →
    (o.toNat < 0x1018 ∨ 0x1018 + 24 * es.length ≤ o.toNat) →
    d.mem (linear MEM_REGIONS_SEGMENT o)
      = c.mem (linear MEM_REGIONS_SEGMENT o)
  mem : c.Spares (ownMap own) depth d

/-- One byte of the region segment after a round that writes the slot at
`DI`. -/
theorem round_byte {e : Region} {o : BitVec 16}
    (hes : c.seg .es = MEM_REGIONS_SEGMENT)
    (hap : Apart own depth c)
    (hans : Answered own depth e (question c) (B 0x15#8 (question c)))
    (hdi : (c.reg .di).toNat + 24 ≤ 65536)
    (hcount : o.toNat ≠ 0x1000 ∧ o.toNat ≠ 0x1001)
    (hout : o.toNat < (c.reg .di).toNat ∨ (c.reg .di).toNat + 24 ≤ o.toNat) :
    (scan_take (scan_ask B c)).mem (linear MEM_REGIONS_SEGMENT o)
      = c.mem (linear MEM_REGIONS_SEGMENT o) := by
  have hseg : (B 0x15#8 (question c)).seg .es = MEM_REGIONS_SEGMENT :=
    hans.es.trans hes
  have hadd : ∀ k < 24, (c.reg .di + BitVec.ofNat 16 k).toNat
      = (c.reg .di).toNat + k := by
    intro k hk
    rw [BitVec.toNat_add, BitVec.toNat_ofNat]
    omega
  -- the count, the answer, the word written before it
  have htake : (scan_take (scan_ask B c)).mem (linear MEM_REGIONS_SEGMENT o)
      = (B 0x15#8 (question c)).mem (linear MEM_REGIONS_SEGMENT o) := by
    show store (B 0x15#8 (question c)).mem
      ((B 0x15#8 (question c)).seg .es) PTR_MEM_REGIONS_COUNT 2 _ _ = _
    rw [hseg]
    refine fill_apart _ _ (by decide) ?_
    rw [linear_toNat]
    show _ < _ + 0x1000 ∨ _ + 0x1000 + 2 ≤ _
    omega
  have hint : (B 0x15#8 (question c)).mem (linear MEM_REGIONS_SEGMENT o)
      = (question c).mem (linear MEM_REGIONS_SEGMENT o) := by
    refine hans.frame _ ⟨hap.own o, hap.stack o⟩ fun k hk heq => ?_
    have hreg : (question c).reg .di = c.reg .di :=
      question_reg c (by decide) (by decide) (by decide)
    rw [hreg] at heq
    have hn := congrArg BitVec.toNat
      (linear_inj (heq.trans (congrArg (linear · _) hes)))
    rw [hadd k hk] at hn
    omega
  rw [htake, hint, question_mem]
  refine fill_apart _ _ ?_ ?_
  · have h20 := hadd 20 (by omega)
    show (c.reg .di + BitVec.ofNat 16 20).toNat + 2 ≤ 65536
    omega
  · have h20 := hadd 20 (by omega)
    rw [hes, linear_toNat]
    show _ < _ + (c.reg .di + BitVec.ofNat 16 20).toNat
      ∨ _ + (c.reg .di + BitVec.ofNat 16 20).toNat + 2 ≤ _
    omega

/-- Bytes elsewhere. -/
theorem round_elsewhere {e : Region} {b : BitVec 64}
    (hes : c.seg .es = MEM_REGIONS_SEGMENT)
    (hans : Answered own depth e (question c) (B 0x15#8 (question c)))
    (hb : c.Fixed (ownMap own) depth b) :
    (scan_take (scan_ask B c)).mem b = c.mem b := by
  have hout : ∀ o, b ≠ linear MEM_REGIONS_SEGMENT o :=
    fun o heq => hb.1 (Or.inr ⟨o, heq⟩)
  have hseg : (B 0x15#8 (question c)).seg .es = MEM_REGIONS_SEGMENT :=
    hans.es.trans hes
  have htake : (scan_take (scan_ask B c)).mem b
      = (B 0x15#8 (question c)).mem b := by
    show store (B 0x15#8 (question c)).mem
      ((B 0x15#8 (question c)).seg .es) PTR_MEM_REGIONS_COUNT 2 _ _ = _
    rw [hseg]
    exact fill_out _ _ fun _ _ => hout _
  have hint : (B 0x15#8 (question c)).mem b = (question c).mem b := by
    refine hans.frame b ⟨fun ho => hb.1 (Or.inl ho), hb.2⟩ fun k _ => ?_
    show b ≠ linear (c.seg .es) _
    rw [hes]
    exact hout _
  rw [htake, hint, question_mem, hes]
  exact fill_out _ _ fun _ _ => hout _

theorem slot_add {i k : Nat} (hi : i < 2559) (hk : k < 24) :
    (slot i + BitVec.ofNat 16 k).toNat = 0x1018 + 24 * i + k := by
  rw [BitVec.toNat_add, slot_toNat hi, BitVec.toNat_ofNat]
  omega

/-- One region more. -/
theorem scan_round {e : Region} {es : List Region} {c₀ : Pc ω}
    (h : Scanning own depth c₀ es c) (hlen : es.length < 2559)
    (hap : Apart own depth c₀)
    (hans : Answered own depth e (question c) (B 0x15#8 (question c))) :
    Scanning own depth c₀ (es ++ [e]) (scan_take (scan_ask B c)) := by
  have hapc : Apart own depth c :=
    ⟨hap.own, by rw [h.ss, h.sp]; exact hap.stack⟩
  have hdi : (c.reg .di).toNat = 0x1018 + 24 * es.length := by
    rw [h.di]
    exact slot_toNat hlen
  have hqdi : (question c).reg .di = c.reg .di :=
    question_reg c (by decide) (by decide) (by decide)
  have hbyte : ∀ o : BitVec 16, o.toNat ≠ 0x1000 ∧ o.toNat ≠ 0x1001 →
      (o.toNat < (c.reg .di).toNat ∨ (c.reg .di).toNat + 24 ≤ o.toNat) →
      (scan_take (scan_ask B c)).mem (linear MEM_REGIONS_SEGMENT o)
        = c.mem (linear MEM_REGIONS_SEGMENT o) :=
    fun o h1 h2 => round_byte h.segment hapc hans (by omega) h1 h2
  have hseg : (B 0x15#8 (question c)).seg .es = MEM_REGIONS_SEGMENT :=
    hans.es.trans h.segment
  have hmem : (scan_take (scan_ask B c)).mem
      = store (B 0x15#8 (question c)).mem MEM_REGIONS_SEGMENT
        PTR_MEM_REGIONS_COUNT 2 ((B 0x15#8 (question c)).word .es
          PTR_MEM_REGIONS_COUNT + 1#16) := by
    show store _ ((B 0x15#8 (question c)).seg .es) _ 2 _ = _
    rw [hseg]
    rfl
  refine ⟨hseg, hans.ss.trans h.ss, ?_, ?_, ?_, ?_, ?_, ?_⟩
  · refine hans.sp.trans (Eq.trans ?_ h.sp)
    exact question_reg c (by decide) (by decide) (by decide)
  · show (B 0x15#8 (question c)).reg .di + 0x18#16 = _
    rw [hans.di, hqdi, h.di]
    apply BitVec.eq_of_toNat_eq
    simp only [slot, List.length_append, List.length_singleton,
      BitVec.toNat_add, BitVec.toNat_ofNat]
    omega
  · rw [hmem, load_store_self (n := 2) _ _ _ _ (by omega)]
    -- the count before is the one of the last round
    have hold : (B 0x15#8 (question c)).word .es PTR_MEM_REGIONS_COUNT
        = load c.mem MEM_REGIONS_SEGMENT PTR_MEM_REGIONS_COUNT 2 := by
      unfold word
      rw [hseg]
      refine load_congr fun k hk => ?_
      have hko : (PTR_MEM_REGIONS_COUNT + BitVec.ofNat 16 k).toNat
          = 0x1000 + k := by
        show (0x1000#16 + BitVec.ofNat 16 k).toNat = _
        rw [BitVec.toNat_add, BitVec.toNat_ofNat, BitVec.toNat_ofNat]
        omega
      refine (hans.frame _ ⟨hapc.own _, hapc.stack _⟩ fun j hj heq => ?_).trans
        ?_
      · rw [hqdi, h.di] at heq
        have hn := congrArg BitVec.toNat
          (linear_inj (heq.trans (congrArg (linear · _) h.segment)))
        rw [slot_add hlen hj] at hn
        omega
      · rw [question_mem, h.segment]
        refine fill_apart _ _ ?_ ?_
        · rw [h.di]
          show (slot es.length + BitVec.ofNat 16 20).toNat + 2 ≤ 65536
          rw [slot_add hlen (by omega)]
          omega
        · rw [h.di, linear_toNat, hko]
          show _ < _ + (slot es.length + BitVec.ofNat 16 20).toNat ∨ _
          rw [slot_add hlen (by omega)]
          omega
    rw [hold, h.count, List.length_append, List.length_singleton,
      BitVec.ofNat_add]
  · intro i hi
    have hcases : i < es.length ∨ i = es.length := by
      rw [List.length_append, List.length_singleton] at hi
      omega
    rcases hcases with hlt | rfl
    · rw [List.getElem_append_left hlt]
      refine (h.regions i hlt).congr fun k hk => hbyte _ ?_ ?_
      · rw [slot_add (by omega) hk]
        omega
      · rw [slot_add (by omega) hk]
        omega
    · rw [List.getElem_append_right (Nat.le_refl _)]
      simp only [Nat.sub_self, List.getElem_cons_zero]
      have hreg := hans.region
      rw [hqdi, h.di] at hreg
      refine RegionAt.congr (m := (B 0x15#8 (question c)).mem) ?_ ?_
      · rw [← h.segment]
        exact hreg
      · intro k hk
        rw [hmem]
        refine fill_apart _ _ (by decide) ?_
        rw [linear_toNat, slot_add hlen hk]
        show _ ∨ _ + 0x1000 + 2 ≤ _
        omega
  · intro o h1 h2 hout
    rw [List.length_append, List.length_singleton] at hout
    rw [hbyte o ⟨h1, h2⟩ (by omega)]
    exact h.table o h1 h2 (by omega)
  · intro b hb
    rw [round_elsewhere h.segment hans (hb.congr h.ss h.sp)]
    exact h.mem b hb

/-- The rest of the list. -/
theorem scan_run (L : MapLabels) (fuel : Nat) {c₀ : Pc ω} (hap : Apart own depth c₀) :
    ∀ (rest es : List Region) (rounds : Nat) (c : Pc ω),
    Scanning own depth c₀ es c →
    Serves B own depth .last rest c.bios (c.wide .bx) →
    es.length + rest.length ≤ 2559 → rest.length ≤ rounds →
    ∃ d, memory_scanner_loop B L fuel rounds c = .ok d
      ∧ Scanning own depth c₀ (es ++ rest) d := by
  intro rest
  induction rest with
  | nil =>
      intro es rounds c _ hs
      exact (hs (question c) rfl (question_bx c) (question_asks c)).elim
  | cons e rest ih =>
      intro es rounds c h hs hlen hrounds
      rw [List.length_cons] at hlen hrounds
      obtain ⟨rounds, rfl⟩ : ∃ r, rounds = r + 1 := ⟨rounds - 1, by omega⟩
      obtain ⟨hans, hzero, hnext⟩ :=
        hs (question c) rfl (question_bx c) (question_asks c)
      have hround := scan_round h (by omega) hap hans
      have hc : (scan_ask B c).carry = false := hans.carry
      have hm : (scan_ask B c).wide .ax = MEM_MAGIC_NUMBER := hans.magic
      have hbx : (scan_take (scan_ask B c)).wide .bx
          = (B 0x15#8 (question c)).wide .bx := rfl
      have hloop : memory_scanner_loop B L fuel (rounds + 1) c
          = if (B 0x15#8 (question c)).wide .bx ≠ 0#32 then
              memory_scanner_loop B L fuel rounds (scan_take (scan_ask B c))
            else .ok (scan_take (scan_ask B c)) := by
        simp only [memory_scanner_loop, hc, Bool.false_eq_true, if_false,
          hm, ne_eq, not_true_eq_false, hbx]
      rw [hloop]
      by_cases h0 : (B 0x15#8 (question c)).wide .bx = 0#32
      · obtain ⟨rfl, -⟩ := hzero.1 h0
        rw [if_neg (not_not_intro h0)]
        exact ⟨_, rfl, hround⟩
      · rw [if_pos h0]
        obtain ⟨d, hd, hscan⟩ := ih (es ++ [e]) rounds _ hround (hnext h0)
          (by rw [List.length_append, List.length_singleton]; omega)
          (by omega)
        rw [List.append_assoc] at hscan
        exact ⟨d, hd, hscan⟩

-- ============================================================ the scanner

/-- The machine as it enters the loop. -/
def scanStart (c : Pc ω) : Pc ω :=
  ((((c.pusha.set .ax MEM_REGIONS_SEGMENT).setSeg .es
    MEM_REGIONS_SEGMENT).setWide .bx 0#32).put16 .es PTR_MEM_REGIONS_COUNT
    0#16).set .di PTR_MEM_REGIONS_TABLE

theorem memory_scanner_eq (rounds : Nat) (c : Pc ω) :
    memory_scanner B L fuel rounds c
      = (memory_scanner_loop B L fuel rounds (scanStart c)
        >>= fun c => .ok c.popa.ret) := rfl

theorem scanStart_bx (c : Pc ω) : (scanStart c).wide .bx = 0#32 :=
  wide_setWide _ _ _

theorem scanStart_mem (c : Pc ω) : (scanStart c).mem
    = store c.pusha.mem MEM_REGIONS_SEGMENT PTR_MEM_REGIONS_COUNT 2 0#16 :=
  rfl

theorem scanStart_sp (c : Pc ω) :
    (scanStart c).reg .sp = c.reg .sp - 16#16 := c.pusha_sp

theorem scanStart_scanning (c : Pc ω) :
    Scanning own depth (scanStart c) [] (scanStart c) := by
  refine ⟨rfl, rfl, rfl, rfl, ?_, ?_, fun _ _ _ _ => rfl, fun _ _ => rfl⟩
  · rw [scanStart_mem]
    exact load_store_self (n := 2) _ _ _ _ (by omega)
  · intro i hi
    exact absurd hi (Nat.not_lt_zero i)

/-- A scan that ends with EBX zero: back to the caller, the regions in the
table, and nothing else of it changed. -/
theorem memory_scanner_spec {es : List Region} {rounds : Nat}
    (hserves : Serves B own depth .last es c.bios 0#32)
    (hlen : es.length ≤ 2559) (hap : Apart own (depth + 16) c)
    (hoff : Off (ownMap own) (c.seg .ss) (c.reg .sp + 2#16) 18)
    (hdepth : depth + 18 ≤ 65536) (hrounds : es.length ≤ rounds) :
    ∃ d, memory_scanner B L fuel rounds c = .ok d
      ∧ c.Returns (ownMap own) (depth + 16) d
      ∧ load d.mem MEM_REGIONS_SEGMENT PTR_MEM_REGIONS_COUNT 2
        = BitVec.ofNat 16 es.length
      ∧ (∀ i (h : i < es.length),
        RegionAt d.mem MEM_REGIONS_SEGMENT (slot i) es[i])
      ∧ ∀ o : BitVec 16, o.toNat ≠ 0x1000 → o.toNat ≠ 0x1001 →
        (o.toNat < 0x1018 ∨ 0x1018 + 24 * es.length ≤ o.toNat) →
        d.mem (linear MEM_REGIONS_SEGMENT o)
          = c.mem (linear MEM_REGIONS_SEGMENT o) := by
  have hapt : Apart own depth (scanStart c) := by
    refine ⟨hap.own, fun o hu => hap.stack o ?_⟩
    rw [scanStart_sp] at hu
    exact hu.of_sub
  obtain ⟨d, hd, hscan⟩ := scan_run L fuel hapt es []
    rounds (scanStart c) (scanStart_scanning c)
    (by rw [scanStart_bx]; exact hserves) (by simpa using hlen) hrounds
  rw [List.nil_append] at hscan
  have hspare : c.pusha.Spares (ownMap own) depth d := by
    intro b hb
    rw [hscan.mem b (hb.congr rfl rfl), scanStart_mem]
    exact fill_out _ _ fun _ _ heq => hb.1 (Or.inr ⟨_, heq⟩)
  have hret := leave_returns (c := c) hscan.ss
    (hscan.sp.trans (scanStart_sp c)) hspare hoff hdepth
  refine ⟨d.popa.ret, ?_, hret, hscan.count, hscan.regions, ?_⟩
  · rw [memory_scanner_eq, hd]
    rfl
  · intro o h1 h2 hout
    refine (hscan.table o h1 h2 hout).trans ?_
    rw [scanStart_mem]
    refine (fill_apart _ _ (by decide) ?_).trans (c.pusha_mem fun hu => ?_)
    · rw [linear_toNat]
      show _ < _ + 0x1000 ∨ _ + 0x1000 + 2 ≤ _
      omega
    · exact hap.stack o (hu.mono (by omega))

/-- DS is the caller's where the BIOS leaves it alone. -/
theorem memory_scanner_loop_ds
    (hds : ∀ q, (B 0x15#8 q).seg .ds = q.seg .ds) : ∀ (rounds : Nat)
    (c d : Pc ω), memory_scanner_loop B L fuel rounds c = .ok d →
    d.seg .ds = c.seg .ds := by
  intro rounds
  induction rounds with
  | zero =>
      intro c d h
      cases h
  | succ rounds ih =>
      intro c d h
      have hround : (scan_take (scan_ask B c)).seg .ds = c.seg .ds :=
        hds (question c)
      simp only [memory_scanner_loop] at h
      split at h
      · exact absurd h memory_scan_failed_ne
      · split at h
        · exact absurd h memory_scan_failed_ne
        · split at h
          · exact (ih _ d h).trans hround
          · cases h
            exact hround

theorem memory_scanner_ds (hds : ∀ q, (B 0x15#8 q).seg .ds = q.seg .ds)
    {rounds : Nat} (h : memory_scanner B L fuel rounds c = .ok d) :
    d.seg .ds = c.seg .ds := by
  obtain ⟨e, he, hd⟩ := bind_inv h
  cases hd
  exact memory_scanner_loop_ds hds rounds (scanStart c) e he

/-- The scan is exact. -/
theorem memory_scanner_exact {es : List Region} {rounds : Nat}
    (hserves : Serves B own depth .last es c.bios 0#32)
    (hlen : 1 ≤ es.length ∧ es.length ≤ 2559)
    (hap : Apart own (depth + 16) c)
    (hoff : Off (ownMap own) (c.seg .ss) (c.reg .sp + 2#16) 18)
    (hdepth : depth + 18 ≤ 65536) (hrounds : es.length ≤ rounds) :
    ∃ d, memory_scanner B L fuel rounds c = .ok d
      ∧ d.ip = c.word .ss (c.reg .sp)
      ∧ d.reg .sp = c.reg .sp + 2#16
      ∧ (∀ r, r ≠ .sp → d.reg r = c.reg r)
      ∧ load d.mem MEM_REGIONS_SEGMENT PTR_MEM_REGIONS_COUNT 2
        = BitVec.ofNat 16 es.length
      ∧ (∀ i (h : i < es.length),
        RegionAt d.mem MEM_REGIONS_SEGMENT (slot i) es[i])
      ∧ ∀ o : BitVec 16, o.toNat ≠ 0x1000 → o.toNat ≠ 0x1001 →
        (o.toNat < 0x1018 ∨ 0x1018 + 24 * es.length ≤ o.toNat) →
        d.mem (linear MEM_REGIONS_SEGMENT o)
          = c.mem (linear MEM_REGIONS_SEGMENT o) := by
  obtain ⟨d, hd, hret, hrest⟩ :=
    memory_scanner_spec hserves hlen.2 hap hoff hdepth hrounds
  exact ⟨d, hd, hret.ip, hret.sp, hret.reg, hrest⟩

-- ================================================== the end of the list

/-- The count and the regions are in place, and the caller has its
registers back. -/
structure ReturnsMap (c : Pc ω) (es : List Region) (d : Pc ω) : Prop where
  ip : d.ip = c.word .ss (c.reg .sp)
  sp : d.reg .sp = c.reg .sp + 2#16
  reg : ∀ r, r ≠ .sp → d.reg r = c.reg r
  count : load d.mem MEM_REGIONS_SEGMENT PTR_MEM_REGIONS_COUNT 2
    = BitVec.ofNat 16 es.length
  regions : ∀ i (h : i < es.length),
    RegionAt d.mem MEM_REGIONS_SEGMENT (slot i) es[i]

/-- What is asked of a list's end: a carry after the last of `es` is no
error, and only a carry on the first call or a missing "SMAP" is. -/
structure EndsRight (B : Bios ω) (L : MapLabels) (c : Pc ω)
    (fin : Ending) (es : List Region) : Prop where
  returns : ∀ smap, fin = .carry smap → es ≠ [] → ∃ fuel rounds d,
    memory_scanner B L fuel rounds c = .ok d ∧ ReturnsMap c es d
  hangs : ∀ fuel rounds, memory_scanner B L fuel rounds c = .error .hang →
    (∃ smap, fin = .carry smap ∧ (es = [] ∨ smap = false)) ∨ fin = .magic

/-- The same of the scanner as a whole. -/
theorem scanner_control {es : List Region} {fin : Ending} {rounds : Nat}
    (hserves : Serves B own depth fin es c.bios 0#32) :
    (fin ≠ .last → ∀ d, memory_scanner B L fuel rounds c ≠ .ok d)
      ∧ (fin = .last →
        memory_scanner B L fuel rounds c ≠ .error .hang) := by
  obtain ⟨h1, h2⟩ := loop_control L fuel es rounds
    (scanStart c) (by rw [scanStart_bx]; exact hserves)
  refine ⟨fun hne d hd => ?_, fun hl hd => ?_⟩
  · obtain ⟨e, he, -⟩ := bind_inv hd
    exact h1 hne e he
  · rw [memory_scanner_eq] at hd
    cases hloop : memory_scanner_loop B L fuel rounds (scanStart c) with
    | ok e =>
        rw [hloop] at hd
        cases hd
    | error e =>
        rw [hloop] at hd
        cases hd
        exact h2 hl hloop

/-- A carry that ends a list of regions is taken for an error, always. -/
theorem list_end_iff {es : List Region} {fin : Ending}
    (hserves : Serves B own depth fin es c.bios 0#32) :
    EndsRight B L c fin es ↔ ¬ ∃ smap, fin = .carry smap ∧ es ≠ [] := by
  constructor
  · rintro hright ⟨smap, rfl, hne⟩
    obtain ⟨fuel, rounds, d, hd, -⟩ := hright.returns smap rfl hne
    exact (scanner_control hserves).1 (by simp) d hd
  · intro hcond
    refine ⟨fun smap hfin hne => absurd ⟨smap, hfin, hne⟩ hcond, ?_⟩
    intro fuel rounds hd
    cases fin with
    | last => exact absurd hd ((scanner_control hserves).2 rfl)
    | carry smap =>
        refine Or.inl ⟨smap, rfl, Or.inl ?_⟩
        by_contra hne
        exact hcond ⟨smap, rfl, hne⟩
    | magic => exact Or.inr rfl

-- =============================================================== a sample

/-- A region written as E820h writes it, in twenty bytes. -/
def putRegion (m : Mem) (s o : BitVec 16) (e : Region) : Mem :=
  store (store (store m s o 8 e.base) s (o + 8#16) 8 e.length) s (o + 16#16) 4
    e.type

theorem distance (o : BitVec 16) {j k : Nat} (hj : j ≤ k) (hk : k < 65536) :
    (o + BitVec.ofNat 16 k - (o + BitVec.ofNat 16 j)).toNat = k - j := by
  simp only [BitVec.toNat_sub, BitVec.toNat_add, BitVec.toNat_ofNat]
  omega

theorem putRegion_at (m : Mem) (s o : BitVec 16) (e : Region) :
    RegionAt (putRegion m s o e) s o e := by
  have h8 : (o - (o + 8#16)).toNat = 65528 := by
    simp only [BitVec.toNat_sub, BitVec.toNat_add, BitVec.toNat_ofNat]
    omega
  have h16 : (o - (o + 16#16)).toNat = 65520 := by
    simp only [BitVec.toNat_sub, BitVec.toNat_add, BitVec.toNat_ofNat]
    omega
  have h816 : (o + 8#16 - (o + 16#16)).toNat = 65528 := by
    simp only [BitVec.toNat_sub, BitVec.toNat_add, BitVec.toNat_ofNat]
    omega
  unfold putRegion
  refine ⟨?_, ?_, load_store_self _ _ _ _ (by omega)⟩
  · rw [load_store_far _ _ _ _ _ (by omega) (by omega),
      load_store_far _ _ _ _ _ (by omega) (by omega)]
    exact load_store_self _ _ _ _ (by omega)
  · rw [load_store_far _ _ _ _ _ (by omega) (by omega)]
    exact load_store_self _ _ _ _ (by omega)

/-- It touches nothing else. -/
theorem putRegion_out (m : Mem) (s o : BitVec 16) (e : Region)
    {b : BitVec 64} (h : ∀ k < 24, b ≠ linear s (o + BitVec.ofNat 16 k)) :
    putRegion m s o e b = m b := by
  have hadd : ∀ j k : Nat, o + BitVec.ofNat 16 j + BitVec.ofNat 16 k
      = o + BitVec.ofNat 16 (j + k) := by
    intro j k
    rw [BitVec.add_assoc, BitVec.ofNat_add]
  unfold putRegion store
  rw [fill_out _ _ fun k hk => ?_, fill_out _ _ fun k hk => ?_,
    fill_out _ _ fun k hk => h k (by omega)]
  · show b ≠ linear s (o + BitVec.ofNat 16 8 + _)
    rw [hadd]
    exact h _ (by omega)
  · show b ≠ linear s (o + BitVec.ofNat 16 16 + _)
    rw [hadd]
    exact h _ (by omega)

/-- Conventional memory, 639 KiB of it. -/
def lowRegion : Region := ⟨0#64, 0x9FC00#64, 1#32⟩

/-- A BIOS with one region, which ends its list with EBX or with the carry
flag, EAX then holding what it was asked with. -/
def mapBios (fin : Ending) : Bios Unit := fun n c =>
  if n = 0x15#8 ∧ c.wide .ax = 0xE820#32 then
    if c.wide .bx = 0#32 then
      { (c.setWide .ax MEM_MAGIC_NUMBER).setWide .bx
          (if fin = .last then 0#32 else 1#32) with
        carry := false
        mem := putRegion c.mem (c.seg .es) (c.reg .di) lowRegion }
    else { c with carry := true }
  else c

theorem mapBios_serves {fin : Ending} (hfin : fin = .last ∨ fin = .carry false)
    (own : BitVec 64 → Prop) (depth : Nat) : Serves (mapBios fin) own depth fin [lowRegion] () 0#32 := by
  intro q _ hbx hasks
  have hint : mapBios fin 0x15#8 q
      = { (q.setWide .ax MEM_MAGIC_NUMBER).setWide .bx
            (if fin = .last then 0#32 else 1#32) with
          carry := false
          mem := putRegion q.mem (q.seg .es) (q.reg .di) lowRegion } := by
    simp only [mapBios, hasks.ax, hbx, and_self, if_true]
  have hwide : (mapBios fin 0x15#8 q).wide .bx
      = if fin = .last then 0#32 else 1#32 := by
    rw [hint]
    exact wide_setWide _ _ _
  refine ⟨?_, ?_, ?_⟩
  · rw [hint]
    refine ⟨rfl, ?_, rfl, rfl, rfl, rfl, putRegion_at _ _ _ _, ?_⟩
    · exact (wide_setWide_of_ne _ _ (by decide)).trans (wide_setWide q _ _)
    · exact fun b _ hb => putRegion_out _ _ _ _ hb
  · rw [hwide]
    rcases hfin with rfl | rfl
    · decide
    · decide
  · rw [hwide]
    rcases hfin with rfl | rfl
    · exact fun h => absurd rfl h
    · intro _ r _ hr hask
      have hne : r.wide .bx ≠ 0#32 := by
        rw [hr]
        decide
      have hend : mapBios (.carry false) 0x15#8 r = { r with carry := true } := by
        simp only [mapBios, hask.ax, and_self, if_true, if_neg hne]
      rw [hend]
      refine ⟨rfl, ?_⟩
      show r.wide .ax = _ ↔ _
      rw [hask.ax]
      decide

/-- The machine in the second stage, called with return address 0xC08D. -/
def scanPc : Pc Unit :=
  { reg := fun r => if r = .sp then 0xB000#16 else 0#16
    high := fun _ => 0#16
    seg := fun _ => 0#16
    carry := false
    eflags := 0#32
    ip := 0#16
    mem := fun _ => 0#8
    loads := []
    issued := []
    bios := () : Pc Unit }.push 0xC08D#16

def scanLabels : MapLabels :=
  ⟨0#16, 0#16, 0#16, ⟨0#16, 0#16, 0#16, 0#16⟩, fun _ => 0#16⟩

theorem scanPc_sp : scanPc.reg .sp = 0xAFFE#16 := rfl

/-- The stack of the second stage ends below the region segment. -/
theorem scanPc_under {n : Nat} (hn : n ≤ 0xB000) (o : BitVec 16) :
    ¬ Under 0#16 0xB000#16 n (linear MEM_REGIONS_SEGMENT o) := by
  rw [under_iff hn, linear_toNat]
  show ¬ (_ ∧ 16 * 0x2000 + o.toNat < 0xB000)
  omega

theorem memory_scanner_exact_sample :
    ∃ d, memory_scanner (mapBios .last) scanLabels 1 1 scanPc = .ok d
      ∧ d.ip = scanPc.word .ss (scanPc.reg .sp)
      ∧ d.reg .sp = scanPc.reg .sp + 2#16
      ∧ (∀ r, r ≠ .sp → d.reg r = scanPc.reg r)
      ∧ load d.mem MEM_REGIONS_SEGMENT PTR_MEM_REGIONS_COUNT 2
        = BitVec.ofNat 16 [lowRegion].length
      ∧ (∀ i (h : i < [lowRegion].length),
        RegionAt d.mem MEM_REGIONS_SEGMENT (slot i) [lowRegion][i])
      ∧ ∀ o : BitVec 16, o.toNat ≠ 0x1000 → o.toNat ≠ 0x1001 →
        (o.toNat < 0x1018 ∨ 0x1018 + 24 * [lowRegion].length ≤ o.toNat) →
        d.mem (linear MEM_REGIONS_SEGMENT o)
          = scanPc.mem (linear MEM_REGIONS_SEGMENT o) := by
  refine @memory_scanner_exact _ _ _ (fun _ => False) 0 _ _ _ _
    (mapBios_serves (Or.inl rfl) _ _) (by decide) ⟨fun _ h => h, ?_⟩ ?_
    (by omega) (by decide)
  · intro o hu
    refine scanPc_under (n := 18) (by omega) o ?_
    exact Under.of_sub (j := 2) hu
  · rintro b hu (h | ⟨o, rfl⟩)
    · exact h
    · exact scanPc_under (n := 18) (by omega) o hu

theorem list_end_iff_sample :
    EndsRight (mapBios .last) scanLabels scanPc .last [lowRegion]
      ↔ ¬ ∃ smap, Ending.last = .carry smap ∧ [lowRegion] ≠ [] :=
  list_end_iff (mapBios_serves (Or.inl rfl) (fun _ => False) 0)

/-- One region, then the carry flag: the scanner hangs. -/
theorem list_end_hangs :
    Serves (mapBios (.carry false)) (fun _ => False) 0 (.carry false)
        [lowRegion] () 0#32
      ∧ memory_scanner (mapBios (.carry false)) scanLabels 1 2 scanPc
        = .error .hang
      ∧ ¬ EndsRight (mapBios (.carry false)) scanLabels scanPc
        (.carry false) [lowRegion] := by
  have hserves := mapBios_serves (Or.inr rfl) (fun _ => False) 0
  refine ⟨hserves, rfl, fun h => ?_⟩
  obtain ⟨fuel, rounds, d, hd, -⟩ := h.returns false rfl (by simp)
  exact (scanner_control (c := scanPc) hserves).1 (by simp) d hd

end BootLoader.SecondStage
