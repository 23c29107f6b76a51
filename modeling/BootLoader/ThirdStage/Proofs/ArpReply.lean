/-
The answer `process_arp` sends.

The answer is laid out field by field in the send buffer, from the request
in the receive buffer. `Building` is the buffer between two stores: the
fields so far, and nothing changed outside the packet. `arp_reply_laid`
has all twelve fields at the end.

# What goes out

`ArpReplyIn` is the answer as RFC 826 wants it. The stores of the hardware
type and of the protocol are the two that miss the swap into network
order, so their bytes stand the wrong way round in every answer
(`answer_sent`), and a call sends well-formed packets only exactly when it
sends none (`arp_replies_iff`).
-/
import BootLoader.Lib.Fields
import BootLoader.ThirdStage.Proofs.NicRuns

namespace BootLoader.ThirdStage

open FlatMemory Mem Words Field

variable {L : Layout} {l : NicLabels L} {p v : BitVec 64} {c d : Cpu}
  {s s' : Nic} {i j : Nat} {r x sp : BitVec 64} {m m' : Mem}
  {fs : List Field} {f : Field}

-- ============================================================== the property

/-- Two bytes in network order. -/
def bigEndian16 (m : Mem) (a : BitVec 64) : BitVec 16 := m a ++ m (a + 1#64)

/-- The packet received is an ARP request over Ethernet for our address. -/
structure AsksUs (l : NicLabels L) (m : Mem) : Prop where
  op : bigEndian16 m (m.read64 l.e1000_recv_packet + 20#64) = ARPOP_REQUEST
  hwt : bigEndian16 m (m.read64 l.e1000_recv_packet + 14#64) = ARPHRD_ETHER
  target : m.read32 (m.read64 l.e1000_recv_packet + 38#64)
    = m.read32 l.my_ip_address

/-- The send buffer of `m'` holds an answer to the request in `m`, with
`type` for its Ethernet type, `hwt` for its hardware type and `pro` for its
protocol. -/
structure ReplyWith (l : NicLabels L) (type hwt pro : BitVec 16)
    (m m' : Mem) : Prop where
  h_dest : (copy 0 6 m (m.read64 l.e1000_recv_packet + 6#64)).At
    (m.read64 l.e1000_send_packet) m'
  h_src : (copy 6 6 m l.e1000_mac_address).At
    (m.read64 l.e1000_send_packet) m'
  h_type : bigEndian16 m' (m.read64 l.e1000_send_packet + 12#64) = type
  ar_hwt : bigEndian16 m' (m.read64 l.e1000_send_packet + 14#64) = hwt
  ar_pro : bigEndian16 m' (m.read64 l.e1000_send_packet + 16#64) = pro
  ar_hln : m' (m.read64 l.e1000_send_packet + 18#64) = 0x6#8
  ar_pln : m' (m.read64 l.e1000_send_packet + 19#64) = 0x4#8
  ar_op : bigEndian16 m' (m.read64 l.e1000_send_packet + 20#64)
    = ARPOP_REPLY
  sender_hw_addr : (copy 22 6 m l.e1000_mac_address).At
    (m.read64 l.e1000_send_packet) m'
  sender_proto_addr : (copy 28 4 m l.my_ip_address).At
    (m.read64 l.e1000_send_packet) m'
  target_hw_addr : (copy 32 6 m (m.read64 l.e1000_recv_packet + 22#64)).At
    (m.read64 l.e1000_send_packet) m'
  target_proto_addr :
    (copy 38 4 m (m.read64 l.e1000_recv_packet + 28#64)).At
      (m.read64 l.e1000_send_packet) m'

/-- The answer as it should be. -/
def ArpReplyIn (l : NicLabels L) (m m' : Mem) : Prop :=
  ReplyWith l ETHERTYPE_ARP ARPHRD_ETHER ETHERTYPE_IP m m'

/-- A call from `s` to `s'` sent a packet only in answer to a request for
us, and then the answer to it. -/
def AnswersWell (l : NicLabels L) (s s' : Nic) : Prop :=
  s.sent < s'.sent →
    AsksUs l s.cpu.mem ∧ ArpReplyIn l s.cpu.mem s'.cpu.mem

-- ================================================================ the answer

/-- The first fields of the packet are written, from the request at `r`
into the buffer at `x`. -/
structure Building (m : Mem) (sp r x : BitVec 64) (fs : List Field)
    (c : Cpu) : Prop where
  rsp : c.reg .rsp = sp
  r8 : c.reg .r8 = r
  r9 : c.reg .r9 = x
  fields : Laid x c.mem fs
  out : ∀ a : BitVec 64, a.toNat < x.toNat ∨ x.toNat + 42 ≤ a.toNat →
    c.mem a = m a

/-- Where the packets and the card's address are. -/
structure PacketsApart (mac r x : BitVec 64) : Prop where
  room : x.toNat + 42 < 2 ^ 64
  recv : r.toNat + 42 < 2 ^ 64
  apart : r.toNat + 42 ≤ x.toNat ∨ x.toNat + 42 ≤ r.toNat
  mac : mac.toNat + 6 ≤ x.toNat

/-- A field lies in the packet. -/
def InPacket (f : Field) : Prop := f.off + f.len ≤ 42

/-- One field more. -/
theorem Building.step (hx : x.toNat + 42 < 2 ^ 64)
    (h : Building m sp r x fs c) (hput : Put x f c.mem d.mem)
    (hreg : ∀ q, q = .rsp ∨ q = .r8 ∨ q = .r9 → d.reg q = c.reg q)
    (hf : InPacket f) (hfs : ∀ g ∈ fs, f.Apart g ∧ InPacket g) :
    Building m sp r x (f :: fs) d where
  rsp := (hreg _ (Or.inl rfl)).trans h.rsp
  r8 := (hreg _ (Or.inr (Or.inl rfl))).trans h.r8
  r9 := (hreg _ (Or.inr (Or.inr rfl))).trans h.r9
  fields := by
    refine h.fields.put hput (fun g hg => (hfs g hg).1) ?_
    intro g hg
    have hin := (hfs g hg).2
    unfold InPacket at hin
    omega
  out := by
    intro a ha
    unfold InPacket at hf
    rw [hput.out a (by omega)]
    exact h.out a ha

/-- A read outside the packet being written. -/
theorem Building.read (h : Building m sp r x fs c) {a : BitVec 64} {n : Nat}
    (hn : a.toNat + n ≤ 2 ^ 64)
    (hout : a.toNat + n ≤ x.toNat ∨ x.toNat + 42 ≤ a.toNat) :
    c.mem.read a n = m.read a n :=
  read_congr_bytes hn fun b hlo hhi => h.out b (by omega)

/-- Registers other than `r` do not change with it. -/
theorem Building.set (h : Building m sp r x fs c) {q : Reg} (hq : q = .rax
    ∨ q = .rbx) (w : BitVec 64) : Building m sp r x fs (c.set q w) := by
  have hne : ∀ q', q' = .rsp ∨ q' = .r8 ∨ q' = .r9 → q' ≠ q := by
    rintro q' (rfl | rfl | rfl) <;> rcases hq with rfl | rfl <;> decide
  exact ⟨(Cpu.set_reg_of_ne (hne _ (Or.inl rfl))).trans h.rsp,
    (Cpu.set_reg_of_ne (hne _ (Or.inr (Or.inl rfl)))).trans h.r8,
    (Cpu.set_reg_of_ne (hne _ (Or.inr (Or.inr rfl)))).trans h.r9,
    h.fields, h.out⟩

/-- `mov rcx, 6` and `rep movsb` into the packet. -/
theorem copy_hw_addr_put (c : Cpu) {o : Nat} {a : BitVec 64}
    (hdst : x.toNat + o + 6 < 2 ^ 64) (hsrc : a.toNat + 6 < 2 ^ 64)
    (hapart : a.toNat + 6 ≤ x.toNat + o ∨ x.toNat + o + 6 ≤ a.toNat) :
    Put x (copy o 6 c.mem a) c.mem
        (copy_hw_addr (x + BitVec.ofNat 64 o) a c).mem
      ∧ ∀ q, q = .rsp ∨ q = .r8 ∨ q = .r9 →
        (copy_hw_addr (x + BitVec.ofNat 64 o) a c).reg q = c.reg q := by
  have haddr : (x + BitVec.ofNat 64 o).toNat = x.toNat + o :=
    toNat_add_lit (by omega)
  unfold copy_hw_addr rep_movsb
  obtain ⟨c₁, hc₁⟩ : ∃ c₁, ((c.set .rsi a).set .rdi
    (x + BitVec.ofNat 64 o)).set .rcx 0x6#64 = c₁ := ⟨_, rfl⟩
  have hmem : c₁.mem = c.mem := by rw [← hc₁]; rfl
  have hsi : c₁.reg .rsi = a := by rw [← hc₁]; rfl
  have hdi : c₁.reg .rdi = x + BitVec.ofNat 64 o := by rw [← hc₁]; rfl
  have hcx : (c₁.reg .rcx).toNat = 6 := by rw [← hc₁]; rfl
  have hkept : ∀ q, q = .rsp ∨ q = .r8 ∨ q = .r9 →
      c₁.reg q = c.reg q := by
    rintro q (rfl | rfl | rfl) <;> rw [← hc₁] <;> rfl
  simp only [hc₁, hcx]
  obtain ⟨hreg, hout⟩ := times_move moveRound_movsb 6 c₁
    (by rw [hdi]; omega)
  have hcopied := times_copied copyRound_movsb 6 c₁ (by rw [hsi]; omega)
    (by rw [hdi]; omega) (by rw [hdi, hsi]; omega)
  rw [hdi, hsi, hmem] at hcopied
  rw [hdi, hmem] at hout
  refine ⟨⟨?_, ?_⟩, ?_⟩
  · intro k hk
    have hbyte := hcopied k (show k < 6 * 1 from hk)
    rw [BitVec.add_assoc, ← BitVec.ofNat_add] at hbyte
    exact hbyte
  · intro a ha
    have hlen : a.toNat < x.toNat + o ∨ x.toNat + o + 6 ≤ a.toNat := ha
    exact hout a (by omega)
  · intro q hq
    obtain ⟨h₁, h₂, h₃⟩ : q ≠ .rsi ∧ q ≠ .rdi ∧ q ≠ .rcx := by
      rcases hq with rfl | rfl | rfl <;> decide
    exact (hreg q h₁ h₂ h₃).trans (hkept q hq)

/-- A hardware address copied into the packet. -/
theorem Building.hw_addr (hx : x.toNat + 42 < 2 ^ 64)
    (h : Building m sp r x fs c) {o : Nat} {a : BitVec 64}
    (hoff : o + 6 ≤ 42) (hsrc : a.toNat + 6 < 2 ^ 64)
    (hapart : a.toNat + 6 ≤ x.toNat ∨ x.toNat + 42 ≤ a.toNat)
    (hfs : ∀ g ∈ fs, (copy o 6 m a).Apart g ∧ InPacket g) :
    Building m sp r x (copy o 6 m a :: fs)
      (copy_hw_addr (c.reg .r9 + BitVec.ofNat 64 o) a c) := by
  obtain ⟨hput, hreg⟩ := copy_hw_addr_put (x := x) c (o := o) (a := a)
    (by omega) hsrc (by omega)
  rw [h.r9]
  -- the source is as it was at the start
  have hsame : ∀ k < 6, c.mem (a + BitVec.ofNat 64 k)
      = m (a + BitVec.ofNat 64 k) := by
    intro k hk
    have haddr : (a + BitVec.ofNat 64 k).toNat = a.toNat + k :=
      toNat_add_lit (by omega)
    exact h.out _ (by omega)
  refine h.step hx ⟨?_, hput.out⟩ hreg hoff hfs
  intro k hk
  exact (hput.put k hk).trans (hsame k hk)

/-- A number stored into the packet. -/
theorem Building.number (hx : x.toNat + 42 < 2 ^ 64)
    (h : Building m sp r x fs c) {o n : Nat} {w : BitVec (8 * n)}
    (hoff : o + n ≤ 42) (hreg : d.reg = c.reg)
    (hmem : d.mem = c.mem.write (c.reg .r9 + BitVec.ofNat 64 o) n w)
    (hfs : ∀ g ∈ fs, (number o n w).Apart g ∧ InPacket g) :
    Building m sp r x (number o n w :: fs) d := by
  rw [h.r9] at hmem
  refine h.step hx ?_ (fun q _ => by rw [hreg]) hoff hfs
  rw [hmem]
  exact put_write c.mem w (by omega)

/-- Stores relative to R9. -/
theorem Building.store16 (hx : x.toNat + 42 < 2 ^ 64)
    (h : Building m sp r x fs c) {o : Nat} (w : BitVec 16)
    (hoff : o + 2 ≤ 42)
    (hfs : ∀ g ∈ fs, (Field.number o 2 w).Apart g ∧ InPacket g) :
    Building m sp r x (Field.number o 2 w :: fs)
      (c.store16 (c.reg .r9 + BitVec.ofNat 64 o) w) :=
  h.number (n := 2) hx hoff rfl rfl hfs

theorem Building.store8 (hx : x.toNat + 42 < 2 ^ 64)
    (h : Building m sp r x fs c) {o : Nat} (w : BitVec 8)
    (hoff : o + 1 ≤ 42)
    (hfs : ∀ g ∈ fs, (Field.number o 1 w).Apart g ∧ InPacket g) :
    Building m sp r x (Field.number o 1 w :: fs)
      (c.store8 (c.reg .r9 + BitVec.ofNat 64 o) w) :=
  h.number (n := 1) hx hoff rfl rfl hfs

theorem Building.store32 (hx : x.toNat + 42 < 2 ^ 64)
    (h : Building m sp r x fs c) {o : Nat} (w : BitVec 32)
    (hoff : o + 4 ≤ 42)
    (hfs : ∀ g ∈ fs, (Field.number o 4 w).Apart g ∧ InPacket g) :
    Building m sp r x (Field.number o 4 w :: fs)
      (c.store32 (c.reg .r9 + BitVec.ofNat 64 o) w) :=
  h.number (n := 4) hx hoff rfl rfl hfs

/-- `mov eax, [r8 + off]`, from the request. -/
theorem Building.load_dword (h : Building m sp r x fs c) (o : Nat) :
    Building m sp r x fs
      (load32 c .rax (c.reg .r8 + BitVec.ofNat 64 o)) :=
  Building.set (c := c.reads _ 4) ⟨h.rsp, h.r8, h.r9, h.fields, h.out⟩
    (Or.inl rfl) _

theorem Building.loaded_dword (h : Building m sp r x fs c) {o : Nat}
    (hoff : o + 4 ≤ 42) (hr : r.toNat + 42 < 2 ^ 64)
    (hapart : r.toNat + 42 ≤ x.toNat ∨ x.toNat + 42 ≤ r.toNat) :
    (load32 c .rax (c.reg .r8 + BitVec.ofNat 64 o)).low32 .rax
      = m.read32 (r + BitVec.ofNat 64 o) := by
  have haddr : (r + BitVec.ofNat 64 o).toNat = r.toNat + o :=
    toNat_add_lit (by omega)
  unfold load32 Cpu.low32
  rw [Cpu.set_reg_self, low32_zeroExtend, h.r8]
  exact h.read (n := 4) (by omega) (by omega)

/-- `arp_reply` up to the Ethernet type. -/
def reply_header (l : NicLabels L) (c : Cpu) : Cpu :=
  let c := copy_hw_addr (c.reg .r9) (c.reg .r8 + 6#64) c
  let c := copy_hw_addr (c.reg .r9 + 6#64) l.e1000_mac_address c
  let c := c.set .rax 0#64
  let c := load16 c .rax (c.reg .r8 + 12#64)
  c.store16 (c.reg .r9 + 12#64) (c.low16 .rax)

/-- The fields that are the same in every answer. -/
def reply_kind (c : Cpu) : Cpu :=
  let c := c.setLow16 .rax ARPOP_REPLY
  let c := rol8 c .rax
  let c := c.store16 (c.reg .r9 + 20#64) (c.low16 .rax)
  let c := c.store16 (c.reg .r9 + 14#64) ARPHRD_ETHER
  let c := c.store16 (c.reg .r9 + 16#64) ETHERTYPE_IP
  let c := c.store8 (c.reg .r9 + 18#64) 0x6#8
  c.store8 (c.reg .r9 + 19#64) 0x4#8

/-- The two parties of the answer. -/
def reply_parties (l : NicLabels L) (c : Cpu) : Cpu :=
  let c := copy_hw_addr (c.reg .r9 + 32#64) (c.reg .r8 + 22#64) c
  let c := copy_hw_addr (c.reg .r9 + 22#64) l.e1000_mac_address c
  let c := load32 c .rax (c.reg .r8 + 28#64)
  let c := c.store32 (c.reg .r9 + 38#64) (c.low32 .rax)
  let c := load32 c .rax (c.reg .r8 + 38#64)
  c.store32 (c.reg .r9 + 28#64) (c.low32 .rax)

theorem arp_reply_eq (l : NicLabels L) (c : Cpu) :
    arp_reply l c
      = (load16 (reply_parties l (reply_kind (reply_header l c))) .rbx
          l.e1000_recv_packet_len).store16 l.e1000_send_packet_len
        ((load16 (reply_parties l (reply_kind (reply_header l c))) .rbx
          l.e1000_recv_packet_len).low16 .rbx) := by
  unfold arp_reply reply_parties reply_kind reply_header
  with_reducible rfl

/-- The Ethernet header of the answer. -/
def headerFields (m : Mem) (mac r : BitVec 64) : List Field :=
  [number 12 2 (m.read16 (r + 12#64)), copy 6 6 m mac,
    copy 0 6 m (r + 6#64)]

/-- What every answer has. The operation is swapped into network order, the
hardware type and the protocol are not. -/
def kindFields : List Field :=
  [number 19 1 0x4#8, number 18 1 0x6#8, number 16 2 ETHERTYPE_IP,
    number 14 2 ARPHRD_ETHER, number 20 2 0x0200#16]

/-- Sender and target of the answer. -/
def partyFields (m : Mem) (mac r : BitVec 64) : List Field :=
  [number 28 4 (m.read32 (r + 38#64)), number 38 4 (m.read32 (r + 28#64)),
    copy 22 6 m mac, copy 32 6 m (r + 22#64)]

theorem reply_header_spec (l : NicLabels L)
    (hpk : PacketsApart l.e1000_mac_address r x)
    (h : Building m sp r x [] c) :
    Building m sp r x (headerFields m l.e1000_mac_address r)
      (reply_header l c) := by
  obtain ⟨hx, hr, hapart, hmac⟩ := hpk
  have hr6 : (r + 6#64).toNat = r.toNat + 6 := toNat_add_lit (by omega)
  have hr12 : (r + 12#64).toNat = r.toNat + 12 := toNat_add_lit (by omega)
  obtain ⟨c₁, hc₁⟩ : ∃ c₁,
    copy_hw_addr (c.reg .r9) (c.reg .r8 + 6#64) c = c₁ := ⟨_, rfl⟩
  obtain ⟨c₂, hc₂⟩ : ∃ c₂,
    copy_hw_addr (c₁.reg .r9 + 6#64) l.e1000_mac_address c₁ = c₂ := ⟨_, rfl⟩
  have h₁ : Building m sp r x [copy 0 6 m (r + 6#64)] c₁ := by
    have hdest := h.hw_addr hx (o := 0) (a := r + 6#64) (by omega)
      (by omega) (by omega) (fun _ hg => absurd hg List.not_mem_nil)
    rw [BitVec.add_zero, ← h.r8, hc₁, h.r8] at hdest
    exact hdest
  have h₂ : Building m sp r x [copy 6 6 m l.e1000_mac_address,
      copy 0 6 m (r + 6#64)] c₂ := by
    have hsrc := h₁.hw_addr hx (o := 6) (a := l.e1000_mac_address)
      (by omega) (by omega) (by omega) (by simp [Apart, InPacket, copy])
    rw [hc₂] at hsrc
    exact hsrc
  have h₃ := (h₂.set (Or.inl rfl) 0#64).set (Or.inl rfl)
    (((c₂.set .rax 0#64).reg .rax).extractLsb' 16 48
      ++ c₂.mem.read16 (c₂.reg .r8 + 12#64))
  -- the type is the request's
  have htype : (load16 (c₂.set .rax 0#64) .rax
      (c₂.reg .r8 + 12#64)).low16 .rax = m.read16 (r + 12#64) := by
    unfold load16
    rw [Cpu.low16_setLow16, h₂.r8]
    exact h₂.read (n := 2) (by omega) (by omega)
  have heq : reply_header l c
      = (load16 (c₂.set .rax 0#64) .rax (c₂.reg .r8 + 12#64)).store16
        ((load16 (c₂.set .rax 0#64) .rax (c₂.reg .r8 + 12#64)).reg .r9
          + 12#64) (m.read16 (r + 12#64)) := by
    rw [← htype]
    simp only [reply_header, hc₁, hc₂]
    rfl
  rw [heq]
  exact h₃.number hx (o := 12) (n := 2) (by omega) rfl rfl
    (by simp [Apart, InPacket, copy, number])

theorem reply_kind_spec (hx : x.toNat + 42 < 2 ^ 64) {mac : BitVec 64}
    (h : Building m sp r x (headerFields m mac r) c) :
    Building m sp r x (kindFields ++ headerFields m mac r)
      (reply_kind c) := by
  obtain ⟨c₁, hc₁⟩ : ∃ c₁,
    rol8 (c.setLow16 .rax ARPOP_REPLY) .rax = c₁ := ⟨_, rfl⟩
  have h₁ : Building m sp r x (headerFields m mac r) c₁ := by
    rw [← hc₁]
    exact (h.set (Or.inl rfl) _).set (Or.inl rfl) _
  have hswap : c₁.low16 .rax = 0x0200#16 := by
    rw [← hc₁]
    unfold rol8
    rw [Cpu.low16_setLow16, Cpu.low16_setLow16]
    decide
  have h₂ := h₁.store16 hx (o := 20) 0x0200#16 (by omega)
    (by simp [headerFields, Apart, InPacket, copy, number])
  have h₃ := h₂.store16 hx (o := 14) ARPHRD_ETHER (by omega)
    (by simp [headerFields, Apart, InPacket, copy, number])
  have h₄ := h₃.store16 hx (o := 16) ETHERTYPE_IP (by omega)
    (by simp [headerFields, Apart, InPacket, copy, number])
  have h₅ := h₄.store8 hx (o := 18) 0x6#8 (by omega)
    (by simp [headerFields, Apart, InPacket, copy, number])
  have h₆ := h₅.store8 hx (o := 19) 0x4#8 (by omega)
    (by simp [headerFields, Apart, InPacket, copy, number])
  simp only [reply_kind, hc₁, hswap]
  exact h₆

theorem reply_parties_spec (l : NicLabels L)
    (hpk : PacketsApart l.e1000_mac_address r x)
    (h : Building m sp r x
      (kindFields ++ headerFields m l.e1000_mac_address r) c) :
    Building m sp r x (partyFields m l.e1000_mac_address r
        ++ (kindFields ++ headerFields m l.e1000_mac_address r))
      (reply_parties l c) := by
  obtain ⟨hx, hr, hapart, hmac⟩ := hpk
  have hr22 : (r + 22#64).toNat = r.toNat + 22 := toNat_add_lit (by omega)
  have hr28 : (r + 28#64).toNat = r.toNat + 28 := toNat_add_lit (by omega)
  have hr38 : (r + 38#64).toNat = r.toNat + 38 := toNat_add_lit (by omega)
  obtain ⟨c₁, hc₁⟩ : ∃ c₁,
    copy_hw_addr (c.reg .r9 + 32#64) (c.reg .r8 + 22#64) c = c₁ := ⟨_, rfl⟩
  obtain ⟨c₂, hc₂⟩ : ∃ c₂, copy_hw_addr (c₁.reg .r9 + 22#64)
    l.e1000_mac_address c₁ = c₂ := ⟨_, rfl⟩
  have h₁ := h.hw_addr hx (o := 32) (a := r + 22#64) (by omega)
    (by omega) (by omega)
    (by simp [kindFields, headerFields, Apart, InPacket, copy, number])
  rw [← h.r8, hc₁, h.r8] at h₁
  have h₂ := h₁.hw_addr hx (o := 22) (a := l.e1000_mac_address)
    (by omega) (by omega) (by omega)
    (by simp [kindFields, headerFields, Apart, InPacket, copy, number])
  rw [hc₂] at h₂
  have h₃ := (h₂.load_dword 28).store32 hx
    (o := 38) (m.read32 (r + 28#64)) (by omega)
    (by simp [kindFields, headerFields, Apart, InPacket, copy, number])
  have h₄ := (h₃.load_dword 38).store32 hx
    (o := 28) (m.read32 (r + 38#64)) (by omega)
    (by simp [kindFields, headerFields, Apart, InPacket, copy, number])
  have hsender := h₂.loaded_dword (o := 28) (by omega) hr hapart
  have htarget := h₃.loaded_dword (o := 38) (by omega) hr hapart
  simp only [reply_parties, hc₁, hc₂, hsender, htarget]
  exact h₄

/-- Every field of an answer. -/
def answerFields (m : Mem) (mac r : BitVec 64) : List Field :=
  partyFields m mac r ++ (kindFields ++ headerFields m mac r)

theorem answerFields_in (m : Mem) (mac r : BitVec 64) :
    ∀ f ∈ answerFields m mac r, InPacket f := by
  simp [answerFields, partyFields, kindFields, headerFields, InPacket, copy,
    number]

/-- The answer in the buffer, and the length of the request as its own. -/
theorem arp_reply_laid (l : NicLabels L)
    (hpk : PacketsApart l.e1000_mac_address r x)
    (hlen : l.e1000_send_packet_len.toNat + 2 ≤ x.toNat)
    (h : Building m sp r x [] c) :
    Laid x (arp_reply l c).mem (answerFields m l.e1000_mac_address r)
      ∧ (arp_reply l c).reg .rsp = sp
      ∧ ∀ a : BitVec 64, a.toNat < x.toNat ∨ x.toNat + 42 ≤ a.toNat →
        a.toNat < l.e1000_send_packet_len.toNat
          ∨ l.e1000_send_packet_len.toNat + 2 ≤ a.toNat →
        (arp_reply l c).mem a = m a := by
  have hx := hpk.room
  have hall := reply_parties_spec l hpk
    (reply_kind_spec hx (reply_header_spec l hpk h))
  rw [arp_reply_eq]
  generalize reply_parties l (reply_kind (reply_header l c)) = c₁ at hall
  have hout : ∀ a : BitVec 64, a.toNat < l.e1000_send_packet_len.toNat
      ∨ l.e1000_send_packet_len.toNat + 2 ≤ a.toNat →
      ((load16 c₁ .rbx l.e1000_recv_packet_len).store16
        l.e1000_send_packet_len
        ((load16 c₁ .rbx l.e1000_recv_packet_len).low16 .rbx)).mem a
        = c₁.mem a := fun a ha =>
    write_apply_of_out (n := 2) _ _ (by omega) ha
  refine ⟨?_, ?_, ?_⟩
  · intro f hf
    refine (hall.fields f hf).congr fun k hk => hout _ (Or.inr ?_)
    have hin := answerFields_in m l.e1000_mac_address r f hf
    unfold InPacket at hin
    rw [toNat_add_lit (by omega)]
    omega
  · rw [Cpu.store16_reg]
    unfold load16
    rw [Cpu.setLow16_reg, if_neg (by decide)]
    exact hall.rsp
  · intro a ha ha'
    exact (hout a ha').trans (hall.out a ha)

/-- A word loaded and swapped. -/
theorem rotated_read16 (m : Mem) (a : BitVec 64) :
    (m.read16 a).rotateLeft 8 = bigEndian16 m a := by
  apply BitVec.eq_of_getLsbD_eq
  intro k hk
  rw [BitVec.getLsbD_rotateLeft]
  unfold bigEndian16
  rw [BitVec.getLsbD_append]
  by_cases hlow : k < 8
  · rw [show 8 % 16 = 8 from rfl, if_pos hlow, cond_eq_ite,
      if_pos (decide_eq_true hlow)]
    refine (getLsbD_read m 2 a _ (by omega)).trans ?_
    rw [show (16 - 8 + k) / 8 = 1 by omega,
      show (16 - 8 + k) % 8 = k by omega]
  · rw [show 8 % 16 = 8 from rfl, if_neg hlow, cond_eq_ite,
      if_neg (by simpa using hlow), decide_eq_true hk, Bool.true_and]
    refine (getLsbD_read m 2 a _ (by omega)).trans ?_
    rw [show (k - 8) / 8 = 0 by omega, show (k - 8) % 8 = k - 8 by omega,
      BitVec.add_zero]

/-- A word of the packet, in network order. -/
theorem word_swapped {o : Nat} {w : BitVec 16}
    (h : (number o 2 w).At x m) :
    bigEndian16 m (x + BitVec.ofNat 64 o) = w.rotateLeft 8 := by
  rw [← rotated_read16]
  exact congrArg (fun y : BitVec 16 => y.rotateLeft 8) (h.read (n := 2))

/-- A byte of the packet. -/
theorem byte_at {o : Nat} {w : BitVec 8} (h : (number o 1 w).At x m) :
    m (x + BitVec.ofNat 64 o) = w := by
  refine (h 0 Nat.one_pos).trans ?_
  exact BitVec.extractLsb'_eq_self

/-- A doubleword copied through a register. -/
theorem copied_at {o : Nat} {src : BitVec 64}
    (h : (number o 4 (m.read32 src)).At x m') :
    (copy o 4 m src).At x m' :=
  fun k hk => (h k hk).trans (extractLsb'_read m src (n := 4) hk)

/-- A copy from memory that agrees on the source. -/
theorem copy_congr {o n : Nat} {src : BitVec 64} {m₁ : Mem}
    (h : (copy o n m₁ src).At x m') (hsame : ∀ k < n,
      m₁ (src + BitVec.ofNat 64 k) = m (src + BitVec.ofNat 64 k)) :
    (copy o n m src).At x m' :=
  fun k hk => (h k hk).trans (hsame k hk)

/-- The fields of an answer, read as a packet. -/
theorem replyWith_of_laid (l : NicLabels L) {m₁ : Mem} (hr :
    m.read64 l.e1000_recv_packet = r) (hx : m.read64 l.e1000_send_packet = x)
    (hlaid : Laid x m' (answerFields m₁ l.e1000_mac_address r))
    (hreq : ∀ k < 42, m₁ (r + BitVec.ofNat 64 k)
      = m (r + BitVec.ofNat 64 k))
    (hmac : ∀ k < 6, m₁ (l.e1000_mac_address + BitVec.ofNat 64 k)
      = m (l.e1000_mac_address + BitVec.ofNat 64 k))
    (htarget : m.read32 (r + 38#64) = m.read32 l.my_ip_address) :
    ReplyWith l (bigEndian16 m (r + 12#64)) 0x0100#16 0x0008#16 m m' := by
  have hfield : ∀ f ∈ answerFields m₁ l.e1000_mac_address r, f.At x m' :=
    hlaid
  simp only [answerFields, partyFields, kindFields, headerFields,
    List.cons_append, List.nil_append, List.forall_mem_cons] at hfield
  obtain ⟨hspa, htpa, hsha, htha, hpln, hhln, hpro, hhwt, hop, htype, hsrc,
    hdest, -⟩ := hfield
  have hreq' : ∀ o k, o + k < 42 →
      m₁ (r + BitVec.ofNat 64 o + BitVec.ofNat 64 k)
        = m (r + BitVec.ofNat 64 o + BitVec.ofNat 64 k) := by
    intro o k hk
    rw [BitVec.add_assoc, ← BitVec.ofNat_add]
    exact hreq _ hk
  subst hr hx
  refine ⟨?_, ?_, ?_, word_swapped hhwt, word_swapped hpro, byte_at hhln,
    byte_at hpln, word_swapped hop, ?_, ?_, ?_, ?_⟩
  · exact copy_congr hdest fun k hk => hreq' 6 k (by omega)
  · exact copy_congr hsrc hmac
  · rw [word_swapped htype, ← rotated_read16]
    exact congrArg (fun w : BitVec 16 => w.rotateLeft 8)
      (read_congr (n := 2) fun k hk => hreq' 12 k (by omega))
  · exact copy_congr hsha hmac
  · rw [show m₁.read32 _ = _ from
      read_congr (n := 4) fun k hk => hreq' 38 k (by omega)] at hspa
    rw [show m.read _ 4 = _ from htarget] at hspa
    exact copied_at hspa
  · exact copy_congr htha fun k hk => hreq' 22 k (by omega)
  · exact copy_congr (copied_at htpa) fun k hk => hreq' 28 k (by omega)

-- ================================================================= the tests

/-- `process_arp` with the operation in AX. -/
def opRead (l : NicLabels L) (s : Nic) : Nic :=
  let s := s.run Cpu.pushaq
  let s := s.run fun c => c.load64 .r9 l.e1000_recv_packet
  s.run (arp_field 20#64)

/-- With the hardware type in AX. -/
def hwtRead (l : NicLabels L) (s : Nic) : Nic :=
  (opRead l s).run (arp_field 14#64)

/-- With the address asked for in R8 and ours in RBX. -/
def ipRead (l : NicLabels L) (s : Nic) : Nic :=
  let s := (hwtRead l s).run fun c => c.set .r8 0#64
  let s := s.run fun c => c.set .rbx 0#64
  let s := s.run fun c => load32 c .r8 (c.reg .r9 + 38#64)
  s.run fun c => load32 c .rbx l.my_ip_address

/-- With the two buffers in R8 and R9. -/
def buffersRead (l : NicLabels L) (s : Nic) : Nic :=
  let s := (ipRead l s).run (print L l.my_ip_msg my_ip_msg)
  let s := s.run fun c => c.load64 .r8 l.e1000_recv_packet
  s.run fun c => c.load64 .r9 l.e1000_send_packet

/-- At the call of `e1000_send_out_packet`. -/
def answering (l : NicLabels L) (s : Nic) : Nic :=
  (buffersRead l s).run (arp_reply l)

theorem process_arp_eq (l : NicLabels L) (reply : List Dma) (s : Nic) :
    process_arp l reply s
      = if (opRead l s).cpu.low16 .rax ≠ ARPOP_REQUEST then
          some ((opRead l s).run Cpu.popaq)
        else if (hwtRead l s).cpu.low16 .rax ≠ ARPHRD_ETHER then
          some ((hwtRead l s).run Cpu.popaq)
        else if (ipRead l s).cpu.reg .r8 ≠ (ipRead l s).cpu.reg .rbx then
          some ((ipRead l s).run Cpu.popaq)
        else (e1000_send_out_packet l reply (answering l s)).map
          fun s => s.run Cpu.popaq := by
  unfold process_arp
  refine if_congr Iff.rfl rfl ?_
  refine if_congr Iff.rfl rfl ?_
  refine if_congr Iff.rfl rfl ?_
  exact Option.map_eq_bind.symm

theorem arp_field_spec (off : BitVec 64) (c : Cpu) :
    (arp_field off c).mem = c.mem
      ∧ (∀ q, q ≠ .rax → (arp_field off c).reg q = c.reg q)
      ∧ (arp_field off c).low16 .rax
        = bigEndian16 c.mem (c.reg .r9 + off) := by
  unfold arp_field rol8 load16
  refine ⟨rfl, ?_, ?_⟩
  · intro q hq
    rw [Cpu.setLow16_reg, if_neg hq, Cpu.setLow16_reg, if_neg hq]
    rfl
  · rw [Cpu.low16_setLow16, Cpu.low16_setLow16]
    exact rotated_read16 _ _

/-- The addresses compared. -/
theorem ipRead_regs (l : NicLabels L) (s : Nic) :
    (ipRead l s).cpu.mem = (hwtRead l s).cpu.mem
      ∧ (ipRead l s).cpu.reg .rsp = (hwtRead l s).cpu.reg .rsp
      ∧ ((ipRead l s).cpu.reg .r8 = (ipRead l s).cpu.reg .rbx
        ↔ (hwtRead l s).cpu.mem.read32 ((hwtRead l s).cpu.reg .r9 + 38#64)
          = (hwtRead l s).cpu.mem.read32 l.my_ip_address) := by
  unfold ipRead
  generalize hwtRead l s = t
  simp only [Nic.run, load32, Cpu.set_reg, Cpu.reads_reg, Cpu.set_mem,
    Cpu.reads_mem, reduceCtorEq, if_false, if_true, true_and]
  refine ⟨fun h => ?_, fun h => by rw [h]⟩
  have hlow := congrArg (fun y : BitVec 64 => y.extractLsb' 0 32) h
  simp only [low32_zeroExtend] at hlow
  exact hlow

/-- Up to the message memory does not change but for the registers saved,
and the three tests look at the request. -/
theorem ipRead_spec (hp : RingRoom p) (hs : StackOk s.cpu)
    (hr : RingsAt l p v i j s.cpu.mem) :
    (ipRead l s).cpu.mem = s.cpu.pushaq.mem
      ∧ (ipRead l s).cpu.reg .rsp = s.cpu.pushaq.reg .rsp
      ∧ ((opRead l s).cpu.low16 .rax = ARPOP_REQUEST
        ∧ (hwtRead l s).cpu.low16 .rax = ARPHRD_ETHER
        ∧ (ipRead l s).cpu.reg .r8 = (ipRead l s).cpu.reg .rbx
          ↔ AsksUs l s.cpu.mem) := by
  obtain ⟨hr₁, -⟩ := pushaq_rings hp hs hr
  have hcells := l.rx_cur_in
  have hip : l.my_ip_address.toNat = l.e1000_rx_cur.toNat + 56 :=
    rx_cur_add_toNat l (by omega)
  have hop_at := area_toNat hp.2 (b := 0x810000) (o := 20) (by omega)
  have hhwt_at := area_toNat hp.2 (b := 0x810000) (o := 14) (by omega)
  have hip_at := area_toNat hp.2 (b := 0x810000) (o := 38) (by omega)
  obtain ⟨hlo, hhi⟩ := id hp
  -- the pointer and the first two fields
  obtain ⟨c₁, hc₁⟩ : ∃ c₁, s.cpu.pushaq.load64 .r9 l.e1000_recv_packet = c₁ :=
    ⟨_, rfl⟩
  have h9 : c₁.reg .r9 = p + 0x810000#64 := by
    rw [← hc₁, Cpu.load64_reg, if_pos rfl]
    exact hr₁.ready.recv_packet
  have hsp : c₁.reg .rsp = s.cpu.pushaq.reg .rsp := by
    rw [← hc₁, Cpu.load64_reg, if_neg (by decide)]
  have hmem : c₁.mem = s.cpu.pushaq.mem := by rw [← hc₁]; rfl
  obtain ⟨hmem₂, hreg₂, hop⟩ := arp_field_spec 20#64 c₁
  obtain ⟨hmem₃, hreg₃, hhwt⟩ := arp_field_spec 14#64 (arp_field 20#64 c₁)
  have hopRead : (opRead l s).cpu = arp_field 20#64 c₁ := by rw [← hc₁]; rfl
  have hhwtRead : (hwtRead l s).cpu = arp_field 14#64 (arp_field 20#64 c₁) := by
    rw [← hc₁]
    rfl
  obtain ⟨hmem₄, hsp₄, hip₄⟩ := ipRead_regs l s
  rw [hhwtRead] at hmem₄ hsp₄ hip₄ ⊢
  rw [hopRead]
  generalize arp_field 14#64 (arp_field 20#64 c₁) = c₃ at *
  generalize arp_field 20#64 c₁ = c₂ at *
  have hm₂ : c₂.mem = s.cpu.pushaq.mem := hmem₂.trans hmem
  have hm₃ : c₃.mem = s.cpu.pushaq.mem := hmem₃.trans hm₂
  have h9₂ : c₂.reg .r9 = p + 0x810000#64 :=
    (hreg₂ _ (by decide)).trans h9
  have h9₃ : c₃.reg .r9 = p + 0x810000#64 :=
    (hreg₃ _ (by decide)).trans h9₂
  refine ⟨hmem₄.trans hm₃, ?_, ?_⟩
  · rw [hsp₄, hreg₃ _ (by decide), hreg₂ _ (by decide), hsp]
  · -- what stands at 0x10000 and above is not the stack
    have hword : ∀ a : BitVec 64, 0x10000 ≤ a.toNat → a.toNat + 2 ≤ 2 ^ 64 →
        bigEndian16 s.cpu.pushaq.mem a = bigEndian16 s.cpu.mem a := by
      intro a ha hend
      rw [← rotated_read16, ← rotated_read16]
      exact congrArg (fun w : BitVec 16 => w.rotateLeft 8)
        (pushaq_read (n := 2) hs ha hend)
    have hdword : ∀ a : BitVec 64, 0x10000 ≤ a.toNat → a.toNat + 4 ≤ 2 ^ 64 →
        s.cpu.pushaq.mem.read32 a = s.cpu.mem.read32 a :=
      fun a ha hend => pushaq_read (n := 4) hs ha hend
    rw [hop, hhwt, hip₄, hmem, hm₂, hm₃, h9, h9₂, h9₃,
      hword _ (by omega) (by omega), hword _ (by omega) (by omega),
      hdword _ (by omega) (by omega), hdword _ (by omega) (by omega)]
    refine ⟨fun ⟨h₁, h₂, h₃⟩ => ?_, fun h => ?_⟩
    · exact ⟨by rw [hr.ready.recv_packet]; exact h₁,
        by rw [hr.ready.recv_packet]; exact h₂,
        by rw [hr.ready.recv_packet]; exact h₃⟩
    · obtain ⟨h₁, h₂, h₃⟩ := h
      rw [hr.ready.recv_packet] at h₁ h₂ h₃
      exact ⟨h₁, h₂, h₃⟩

theorem my_ip_msg_length : my_ip_msg.length ≤ 30 := by
  unfold my_ip_msg ascii
  rw [List.length_append, List.length_map, String.length_toList]
  decide

/-- After the message: the buffers in R8 and R9, the request and the card's
address as they were. -/
structure AtReply (l : NicLabels L) (p : BitVec 64) (s : Nic) (c : Cpu) :
    Prop where
  keeps : Keeps l p s.cpu.pushaq c
  r8 : c.reg .r8 = p + 0x810000#64
  r9 : c.reg .r9 = p + 0x810800#64
  high : ∀ a : BitVec 64, 0x100000 ≤ a.toNat → c.mem a = s.cpu.mem a
  mac : ∀ k < 6, c.mem (l.e1000_mac_address + BitVec.ofNat 64 k)
    = s.cpu.mem (l.e1000_mac_address + BitVec.ofNat 64 k)

theorem buffersRead_spec (hp : RingRoom p) (hs : StackRoom 120 s.cpu)
    (hr : RingsAt l p v i j s.cpu.mem) :
    AtReply l p s (buffersRead l s).cpu := by
  obtain ⟨hr₁, -⟩ := pushaq_rings hp hs.stackOk hr
  obtain ⟨hmem, hrsp, -⟩ := ipRead_spec hp hs.stackOk hr
  have hbase := l.mem_base_in
  have hpush : ∀ a : BitVec 64, 0x10000 ≤ a.toNat →
      s.cpu.pushaq.mem a = s.cpu.mem a := by
    obtain ⟨hlo, hhi⟩ := hs
    obtain ⟨-, -, hout, -⟩ := Cpu.pushaq_spec (c := s.cpu) (by omega)
    exact fun a ha => hout a (Or.inr (by omega))
  have hk : Keeps l p s.cpu.pushaq (ipRead l s).cpu :=
    ⟨hrsp, fun a _ => congrFun hmem a⟩
  have hs₁ : StackRoom 0 s.cpu.pushaq := StackRoom.pushaq (n := 0) hs
  obtain ⟨hk₂, -, hhigh, hvars⟩ := print_keeps (l := l) hp
    (hs₁.of_keeps hk).stackOk l.my_ip_msg my_ip_msg
    (l.strings_in _ (by simp)) my_ip_msg_length
  obtain ⟨c, hc⟩ : ∃ c, print L l.my_ip_msg my_ip_msg (ipRead l s).cpu = c :=
    ⟨_, rfl⟩
  have heq : (buffersRead l s).cpu
      = (c.load64 .r8 l.e1000_recv_packet).load64 .r9
        l.e1000_send_packet := by
    rw [← hc]
    rfl
  rw [hc] at hk₂ hhigh hvars
  have hkc := hk.trans hk₂
  have hready := (hkc.ringsAt hp hr₁).ready
  rw [heq]
  refine ⟨(hkc.reads _ 8 |>.set (by decide) _).reads _ 8 |>.set (by decide) _,
    ?_, ?_, ?_, ?_⟩
  · rw [Cpu.load64_reg, if_neg (by decide), Cpu.load64_reg, if_pos rfl]
    exact hready.recv_packet
  · rw [Cpu.load64_reg, if_pos rfl]
    exact hready.send_packet
  · intro a ha
    refine (hhigh a ha).trans ?_
    rw [hmem]
    exact hpush a (by omega)
  · intro k hk'
    have haddr : (l.e1000_mac_address + BitVec.ofNat 64 k).toNat
        = l.e1000_mem_base.toNat + 26 + k := by
      unfold NicLabels.e1000_mac_address
      rw [BitVec.add_assoc, ← BitVec.ofNat_add, toNat_add_lit (by omega)]
      omega
    refine (hvars _ (by omega) (by omega)).trans ?_
    rw [hmem]
    exact hpush _ (by omega)

/-- At the call of `e1000_send_out_packet` the answer is in the buffer. -/
theorem answering_spec (hp : RingRoom p) (hs : StackRoom 120 s.cpu)
    (hr : RingsAt l p v i j s.cpu.mem) (hasks : AsksUs l s.cpu.mem) :
    Keeps l p s.cpu.pushaq (answering l s).cpu ∧ Silent s (answering l s)
      ∧ ∀ m', (∀ a : BitVec 64, p.toNat + 0x810800 ≤ a.toNat →
          a.toNat < p.toNat + 0x811000 →
          m' a = (answering l s).cpu.mem a) →
        ReplyWith l (bigEndian16 s.cpu.mem (p + 0x810000#64 + 12#64))
          0x0100#16 0x0008#16 s.cpu.mem m' := by
  have hat := buffersRead_spec hp hs hr
  have hr_at := desc_toNat hp.2 (n := 0x810000) (by omega)
  have hx_at := desc_toNat hp.2 (n := 0x810800) (by omega)
  have hbase := l.mem_base_in
  have hcells := l.rx_cur_in
  have hmac : l.e1000_mac_address.toNat = l.e1000_mem_base.toNat + 26 :=
    toNat_add_lit (by omega)
  have hruns := l.runs_apart
  have hlen : l.e1000_send_packet_len.toNat = l.e1000_rx_cur.toNat + 54 :=
    rx_cur_add_toNat l (by omega)
  obtain ⟨hlo, hhi⟩ := id hp
  have hpk : PacketsApart l.e1000_mac_address (p + 0x810000#64)
      (p + 0x810800#64) :=
    ⟨by omega, by omega, by omega, by omega⟩
  have hstart : Building (buffersRead l s).cpu.mem
      ((buffersRead l s).cpu.reg .rsp) (p + 0x810000#64) (p + 0x810800#64) []
      (buffersRead l s).cpu :=
    ⟨rfl, hat.r8, hat.r9, laid_nil, fun _ _ => rfl⟩
  obtain ⟨hlaid, hrsp, hout⟩ := arp_reply_laid l hpk (by omega) hstart
  have heq : (answering l s).cpu = arp_reply l (buffersRead l s).cpu := rfl
  rw [heq]
  refine ⟨?_, ⟨rfl, rfl, rfl, rfl⟩, ?_⟩
  · refine hat.keeps.trans ⟨hrsp, fun a ha => hout a ?_ ?_⟩
    · rcases ha with h | h | h <;> omega
    · rcases ha with h | h | h <;> omega
  · intro m' hm'
    refine replyWith_of_laid l hr.ready.recv_packet hr.ready.send_packet ?_ ?_
      hat.mac ?_
    · intro f hf
      refine (hlaid f hf).congr fun k hk => hm' _ ?_ ?_
      all_goals
        have hin := answerFields_in _ l.e1000_mac_address _ f hf
        have haddr := area_toNat hp.2 (b := 0x810800) (o := f.off + k)
          (by unfold InPacket at hin; omega)
        unfold InPacket at hin
        omega
    · intro k hk
      have haddr := area_toNat hp.2 (b := 0x810000) (o := k) (by omega)
      exact hat.high _ (by omega)
    · rw [← hr.ready.recv_packet]
      exact hasks.target

-- ================================================================= the send

/-- The card does not write the send buffer. -/
def LeavesPacket (p : BitVec 64) (f : Dma) : Prop :=
  ∀ (m : Mem) (a : BitVec 64), p.toNat + 0x810800 ≤ a.toNat →
    a.toNat < p.toNat + 0x811000 → f m a = m a

/-- An index advances in its own doubleword. -/
theorem advance_index_out {e a : BitVec 64} (c : Cpu)
    (hcur : e.toNat + 4 ≤ 2 ^ 64)
    (ha : a.toNat < e.toNat ∨ e.toNat + 4 ≤ a.toNat) :
    (advance_index e c).mem a = c.mem a
      ∧ (advance_index e c).reg = c.reg := by
  have hword : c.mem.write16 e (c.mem.read16 e + 1#16) a = c.mem a :=
    write_apply_of_out (n := 2) _ _ (by omega) (by omega)
  unfold advance_index
  simp only
  split
  · exact ⟨hword, rfl⟩
  · exact ⟨(write_apply_of_out (n := 4) _ _ hcur ha).trans hword, rfl⟩

/-- A descriptor filled in: nothing changes outside its fields. -/
theorem tx_describe_out (l : NicLabels L) (c : Cpu) {a : BitVec 64}
    (hend : (c.reg .r9).toNat + 16 < 2 ^ 64)
    (ha : (c.reg .r9).toNat + 16 ≤ a.toNat) :
    (tx_describe l c).mem a = c.mem a := by
  have hstatus : (c.reg .r9 + descStatus).toNat = (c.reg .r9).toNat + 12 :=
    toNat_add_lit (by omega)
  have hcmd : (c.reg .r9 + descCmd).toNat = (c.reg .r9).toNat + 11 :=
    toNat_add_lit (by omega)
  have hlen : (c.reg .r9 + descLength).toNat = (c.reg .r9).toNat + 8 :=
    toNat_add_lit (by omega)
  have h₁ : (c.store8 (c.reg .r9 + descStatus) 0x0#8).mem a = c.mem a :=
    write_apply_of_out (n := 1) _ _ (by omega) (by omega)
  have h₂ : ((c.store8 (c.reg .r9 + descStatus) 0x0#8).store8
      (c.reg .r9 + descCmd) txCommand).mem a = c.mem a :=
    (write_apply_of_out (n := 1) _ _ (by omega) (by omega)).trans h₁
  refine Eq.trans ?_ h₂
  exact write_apply_of_out (n := 2) (a := c.reg .r9 + descLength) _ _
    (by omega) (Or.inr (by omega))

/-- The copy for the card ends below the receive buffer. -/
theorem tx_fill_packet (hp : RingRoom p) (hr : Ready l p v c.mem)
    (hi : i < 0x800)
    (htx : c.mem.read16 l.e1000_tx_cur = BitVec.ofNat 16 i)
    {a : BitVec 64} (ha : p.toNat + 0x810800 ≤ a.toNat) :
    (tx_fill l c).mem a = c.mem a := by
  obtain ⟨hmem, -, hr9, hdi, hcx⟩ := tx_operands_spec hr hi htx
  have hbuf := desc_toNat hp.2 (n := 0x410000 + 0x800 * i) (by omega)
  have hdesc := desc_toNat hp.2 (n := 0x8000 + 16 * i) (by omega)
  obtain ⟨hlo, hhi⟩ := id hp
  unfold tx_fill rep_movsb
  generalize tx_operands l c = c₁ at hmem hr9 hdi hcx
  rw [show (c₁.reg .rcx).toNat = 0x800 by rw [hcx]; rfl]
  obtain ⟨hreg, hcopy⟩ := times_move moveRound_movsb 0x800 c₁
    (by rw [hdi]; omega)
  have h9 := (hreg .r9 (by decide) (by decide) (by decide)).trans hr9
  have hcopied := (hcopy a (by rw [hdi]; omega)).trans (congrFun hmem a)
  generalize Loop.times movsb 0x800 c₁ = c₂ at h9 hcopied
  exact (tx_describe_out l c₂ (by rw [h9]; omega)
    (by rw [h9]; omega)).trans hcopied

/-- The wait: what the card leaves alone stays. -/
theorem wait_sent_leaves {a : BitVec 64} (polls : List Dma) :
    ∀ {s s' : Nic}, (∀ f ∈ polls, ∀ m : Mem, f m a = m a) →
      wait_sent polls s = some s' →
      s'.cpu.mem a = s.cpu.mem a ∧ s'.cpu.reg = s.cpu.reg
        ∧ Silent s s' := by
  induction polls with
  | nil =>
      intro s s' _ h
      cases h
  | cons f polls ih =>
      intro s s' hp h
      have hstep : (s.dma f).cpu.mem a = s.cpu.mem a :=
        hp f List.mem_cons_self s.cpu.mem
      unfold wait_sent at h
      simp only at h
      split at h
      · obtain ⟨hmem, hreg, hsil⟩ := ih
          (fun g hg => hp g (List.mem_cons_of_mem _ hg)) h
        exact ⟨hmem.trans hstep, hreg,
          ⟨hsil.out, hsil.sent, hsil.received, hsil.updates⟩⟩
      · obtain rfl := Option.some.inj h
        exact ⟨hstep, rfl, ⟨rfl, rfl, rfl, rfl⟩⟩

/-- A send counts one packet and leaves the send buffer as it was. -/
theorem send_packet_kept (hp : RingRoom p) (hs : StackRoom 240 s.cpu)
    (hr : RingsAt l p v i j s.cpu.mem) (hi : i < 0x800) {polls : List Dma}
    (hpolls : ∀ f ∈ polls, LeavesPacket p f)
    (h : e1000_send_out_packet l polls s = some s') :
    s'.sent = s.sent + 1 ∧ ∀ a : BitVec 64, p.toNat + 0x810800 ≤ a.toNat →
      a.toNat < p.toNat + 0x811000 → s'.cpu.mem a = s.cpu.mem a := by
  rw [send_eq] at h
  obtain ⟨t, hwait, rfl⟩ := Option.map_eq_some_iff.1 h
  have hcells := l.rx_cur_in
  have htx_at : l.e1000_tx_cur.toNat = l.e1000_rx_cur.toNat + 2 :=
    rx_cur_add_toNat l (by omega)
  obtain ⟨hlo, hhi⟩ := id hp
  have hs₁ : StackRoom 120 s.cpu.pushaq := hs.pushaq
  obtain ⟨hr₁, -⟩ := pushaq_rings hp hs.stackOk hr
  obtain ⟨hk₂, -⟩ := tx_fill_keeps hp hr₁.ready hi hr₁.tx
  have hs₃ : StackRoom 120 (queued l s).cpu := by
    obtain ⟨-, hreg₃⟩ := advance_index_out (e := l.e1000_tx_cur)
      (a := 0#64) (tx_fill l s.cpu.pushaq) (by omega)
      (Or.inl (by show 0 < _; omega))
    show StackRoom 120 (advance_index l.e1000_tx_cur _)
    unfold StackRoom
    rw [hreg₃]
    exact hs₁.of_keeps hk₂
  obtain ⟨-, hmem₄, hreg₄, hsent₄, -⟩ := update_tail_spec (s := queued l s) hp
    hs₃.stackOk REG_TXDESCTAIL (o := 2) (by omega)
  rw [show l.e1000_rx_cur + BitVec.ofNat 64 2 = l.e1000_tx_cur from rfl]
    at hmem₄ hreg₄ hsent₄
  generalize update_tail l REG_TXDESCTAIL l.e1000_tx_cur (queued l s) = u
    at hwait hmem₄ hreg₄ hsent₄
  refine ⟨?_, ?_⟩
  · have hat := desc_toNat hp.2 (n := 0x810800) (by omega)
    obtain ⟨-, -, hsil⟩ := wait_sent_leaves (a := p + 0x810800#64) polls
      (fun f hf m => hpolls f hf m _ (by omega) (by omega)) hwait
    exact hsil.sent.trans hsent₄
  · intro a ha ha'
    obtain ⟨hmem₅, hreg₅, -⟩ := wait_sent_leaves (a := a) polls
      (fun f hf m => hpolls f hf m a ha ha') hwait
    have hs₅ : StackOk t.cpu := by
      unfold StackOk
      rw [hreg₅, hreg₄ _ (by decide)]
      exact hs₃.stackOk
    obtain ⟨-, -, hprint, -⟩ := print_keeps (l := l) hp hs₅
      l.e1000_sent_packet_msg e1000_sent_packet_msg
      (l.strings_in _ (by simp)) sent_msg_length
    show (Cpu.popaq _).mem a = _
    rw [Cpu.popaq_mem]
    refine (hprint a (by omega)).trans (hmem₅.trans ?_)
    refine (hmem₄ a (by omega)).trans ?_
    obtain ⟨hout₃, -⟩ := advance_index_out (e := l.e1000_tx_cur) (a := a)
      (tx_fill l s.cpu.pushaq) (by omega) (by omega)
    refine hout₃.trans ((tx_fill_packet hp hr₁.ready hi hr₁.tx ha).trans ?_)
    obtain ⟨hroom, hroom'⟩ := hs
    obtain ⟨-, -, hpush, -⟩ := Cpu.pushaq_spec (c := s.cpu) (by omega)
    exact hpush a (Or.inr (by omega))

-- =============================================================== the result

/-- A packet that does not ask for us is not answered. -/
theorem process_arp_ignores (hp : RingRoom p) (hs : StackOk s.cpu)
    (hr : RingsAt l p v i j s.cpu.mem) (hasks : ¬ AsksUs l s.cpu.mem)
    {reply : List Dma} (hrun : process_arp l reply s = some s') :
    s'.sent = s.sent := by
  obtain ⟨-, -, hiff⟩ := ipRead_spec hp hs hr
  rw [process_arp_eq] at hrun
  by_cases hop : (opRead l s).cpu.low16 .rax = ARPOP_REQUEST
  · rw [if_neg (not_not.2 hop)] at hrun
    by_cases hhwt : (hwtRead l s).cpu.low16 .rax = ARPHRD_ETHER
    · rw [if_neg (not_not.2 hhwt)] at hrun
      have hip : (ipRead l s).cpu.reg .r8 ≠ (ipRead l s).cpu.reg .rbx :=
        fun hip => hasks (hiff.1 ⟨hop, hhwt, hip⟩)
      rw [if_pos hip] at hrun
      obtain rfl := Option.some.inj hrun
      rfl
    · rw [if_pos hhwt] at hrun
      obtain rfl := Option.some.inj hrun
      rfl
  · rw [if_pos hop] at hrun
    obtain rfl := Option.some.inj hrun
    rfl

/-- A packet that asks for us comes to the send. -/
theorem process_arp_asked (hp : RingRoom p) (hs : StackOk s.cpu)
    (hr : RingsAt l p v i j s.cpu.mem) (hasks : AsksUs l s.cpu.mem)
    (reply : List Dma) :
    process_arp l reply s
      = (e1000_send_out_packet l reply (answering l s)).map
        fun s => s.run Cpu.popaq := by
  obtain ⟨-, -, hiff⟩ := ipRead_spec hp hs hr
  obtain ⟨hop, hhwt, hip⟩ := hiff.2 hasks
  rw [process_arp_eq, if_neg (not_not.2 hop), if_neg (not_not.2 hhwt),
    if_neg (not_not.2 hip)]

/-- What is sent: every field as it should be, but the hardware type and
the protocol with their bytes exchanged, and the Ethernet type the request
had. -/
theorem answer_sent (hp : RingRoom p) (hs : StackRoom 360 s.cpu)
    (hr : RingsAt l p v i j s.cpu.mem) (hi : i < 0x800)
    (hasks : AsksUs l s.cpu.mem) {reply : List Dma}
    (hcard : ∀ f ∈ reply, LeavesPacket p f)
    (hrun : process_arp l reply s = some s') :
    s'.sent = s.sent + 1
      ∧ ReplyWith l (bigEndian16 s.cpu.mem (p + 0x810000#64 + 12#64))
        0x0100#16 0x0008#16 s.cpu.mem s'.cpu.mem := by
  rw [process_arp_asked hp hs.stackOk hr hasks] at hrun
  obtain ⟨t, ht, rfl⟩ := Option.map_eq_some_iff.1 hrun
  obtain ⟨hk, hsil, hreply⟩ := answering_spec hp (hs.mono (by omega)) hr hasks
  obtain ⟨hr₁, -⟩ := pushaq_rings hp hs.stackOk hr
  have hs₁ : StackRoom 240 s.cpu.pushaq := hs.pushaq
  obtain ⟨hsent, hmem⟩ := send_packet_kept hp (hs₁.of_keeps hk)
    (hk.ringsAt hp hr₁) hi hcard ht
  refine ⟨by rw [← hsil.sent]; exact hsent, hreply _ ?_⟩
  intro a ha ha'
  show (Cpu.popaq _).mem a = _
  rw [Cpu.popaq_mem]
  exact hmem a ha ha'

/-- A call sends nothing but well-formed answers exactly if the packet
received is no request for us. -/
theorem arp_replies_iff (l : NicLabels L) (p v : BitVec 64) (i j : Nat)
    (s s' : Nic) (reply : List Dma) (hp : RingRoom p)
    (hs : StackRoom 360 s.cpu) (hr : RingsAt l p v i j s.cpu.mem)
    (hi : i < 0x800) (hcard : ∀ f ∈ reply, LeavesPacket p f)
    (hrun : process_arp l reply s = some s') :
    AnswersWell l s s' ↔ ¬ AsksUs l s.cpu.mem := by
  refine ⟨fun hwell hasks => ?_, fun hasks hsent => ?_⟩
  · obtain ⟨hsent, hreply⟩ := answer_sent hp hs hr hi hasks hcard hrun
    obtain ⟨-, hgood⟩ := hwell (by omega)
    have hwrong := hgood.ar_hwt.symm.trans hreply.ar_hwt
    exact absurd hwrong (by decide)
  · have hnone := process_arp_ignores hp hs.stackOk hr hasks hrun
    omega

-- ================================================================= samples

/-- The card marks a descriptor and leaves the send buffer. -/
theorem markSent_leavesPacket (hp : RingRoom p) (hi : i < 0x800) :
    LeavesPacket p (markSent p i) := by
  have haddr : (p + BitVec.ofNat 64 (0x8000 + 16 * i) + descStatus).toNat
      = p.toNat + (0x8000 + 16 * i + 12) := area_toNat hp.2 (by omega)
  obtain ⟨hlo, hhi⟩ := hp
  intro m a ha ha'
  exact write_apply_of_out (n := 1) _ _ (by omega) (by omega)

/-- An answer whose descriptor the card takes is sent. -/
theorem asked_returns (hp : RingRoom p) (hs : StackRoom 360 s.cpu)
    (hr : RingsAt l p v i j s.cpu.mem) (hi : i + 1 < 0x800)
    (hasks : AsksUs l s.cpu.mem) :
    ∃ s', process_arp l [markSent p i] s = some s' := by
  obtain ⟨hk, -⟩ := answering_spec hp (hs.mono (by omega)) hr hasks
  obtain ⟨hr₁, -⟩ := pushaq_rings hp hs.stackOk hr
  have hs₁ : StackRoom 240 s.cpu.pushaq := hs.pushaq
  obtain ⟨t, ht⟩ := send_returns (s := answering l s) hp (hs₁.of_keeps hk)
    (hk.ringsAt hp hr₁) (by omega) (Or.inr hi)
  rw [process_arp_asked hp hs.stackOk hr hasks, ht]
  exact ⟨_, rfl⟩

/-- Our address 192.168.1.88 in memory, and a request for it received. -/
def arpRequest (l : NicLabels L) (p : BitVec 64) : Dma := fun m =>
  let m := m.write32 l.my_ip_address 0x5801A8C0#32
  let m := m.write16 (p + 0x810000#64 + 12#64) 0x0608#16
  let m := m.write16 (p + 0x810000#64 + 14#64) 0x0100#16
  let m := m.write16 (p + 0x810000#64 + 20#64) 0x0100#16
  m.write32 (p + 0x810000#64 + 38#64) 0x5801A8C0#32

theorem arpRequest_spec (hp : RingRoom p) (m : Mem) :
    Laid (p + 0x810000#64) (arpRequest l p m)
        [number 38 4 0x5801A8C0#32, number 20 2 0x0100#16,
          number 14 2 0x0100#16, number 12 2 0x0608#16]
      ∧ ∀ a : BitVec 64, a.toNat < p.toNat + 0x810000 → arpRequest l p m a
        = m.write32 l.my_ip_address 0x5801A8C0#32 a := by
  have hx := desc_toNat hp.2 (n := 0x810000) (by omega)
  obtain ⟨hlo, hhi⟩ := hp
  unfold arpRequest
  generalize m.write32 l.my_ip_address 0x5801A8C0#32 = m₁
  generalize p + 0x810000#64 = x at hx
  have hput₂ := put_write (x := x) (o := 12) (n := 2) m₁ 0x0608#16
    (by omega)
  have hlaid₂ := laid_nil.put hput₂ (by simp) (by simp)
  generalize hm₂ : m₁.write (x + BitVec.ofNat 64 12) 2 0x0608#16 = m₂
    at hput₂ hlaid₂
  have hput₃ := put_write (x := x) (o := 14) (n := 2) m₂ 0x0100#16
    (by omega)
  have hlaid₃ := hlaid₂.put hput₃ (by simp [Apart, number])
    (by simp [number]; omega)
  generalize hm₃ : m₂.write (x + BitVec.ofNat 64 14) 2 0x0100#16 = m₃
    at hput₃ hlaid₃
  have hput₄ := put_write (x := x) (o := 20) (n := 2) m₃ 0x0100#16
    (by omega)
  have hlaid₄ := hlaid₃.put hput₄ (by simp [Apart, number])
    (by simp [number]; omega)
  generalize hm₄ : m₃.write (x + BitVec.ofNat 64 20) 2 0x0100#16 = m₄
    at hput₄ hlaid₄
  have hput₅ := put_write (x := x) (o := 38) (n := 4) m₄ 0x5801A8C0#32
    (by omega)
  have hlaid₅ := hlaid₄.put hput₅ (by simp [Apart, number])
    (by simp [number]; omega)
  have heq : ((((m₁.write16 (x + 12#64) 0x0608#16).write16 (x + 14#64)
      0x0100#16).write16 (x + 20#64) 0x0100#16).write32 (x + 38#64)
      0x5801A8C0#32) = m₄.write (x + BitVec.ofNat 64 38) 4 0x5801A8C0#32 := by
    rw [← hm₄, ← hm₃, ← hm₂]
    rfl
  simp only [heq]
  refine ⟨hlaid₅, ?_⟩
  intro a ha
  rw [hput₅.out a (Or.inl (by omega)), hput₄.out a (Or.inl (by omega)),
    hput₃.out a (Or.inl (by omega)), hput₂.out a (Or.inl (by omega))]

theorem arpRequest_leaves (hp : RingRoom p) : Leaves l p (arpRequest l p) := by
  intro m a ha
  have hcells := l.rx_cur_in
  have hbase := l.mem_base_in
  have hruns := l.runs_apart
  have hip : l.my_ip_address.toNat = l.e1000_rx_cur.toNat + 56 :=
    rx_cur_add_toNat l (by omega)
  obtain ⟨-, hout⟩ := arpRequest_spec (l := l) hp m
  obtain ⟨hlo, hhi⟩ := hp
  rw [hout a (by rcases ha with h | h | h <;> omega)]
  exact write_apply_of_out (n := 4) _ _ (by omega)
    (by rcases ha with h | h | h <;> omega)

/-- The packet asks for us. -/
theorem arpRequest_asks (hp : RingRoom p)
    (hr : RingsAt l p v i j s.cpu.mem) :
    AsksUs l (s.dma (arpRequest l p)).cpu.mem := by
  have hcells := l.rx_cur_in
  have hip : l.my_ip_address.toNat = l.e1000_rx_cur.toNat + 56 :=
    rx_cur_add_toNat l (by omega)
  have hr' : RingsAt l p v i j (arpRequest l p s.cpu.mem) :=
    ((arpRequest_leaves hp).keeps s).ringsAt hp hr
  obtain ⟨hlaid, hout⟩ := arpRequest_spec (l := l) hp s.cpu.mem
  simp only [Laid, List.forall_mem_cons] at hlaid
  obtain ⟨htarget, hop, hhwt, -⟩ := hlaid
  have hours : (arpRequest l p s.cpu.mem).read32 l.my_ip_address
      = 0x5801A8C0#32 := by
    obtain ⟨hlo, hhi⟩ := hp
    refine Eq.trans ?_ (read_write_self (n := 4) s.cpu.mem l.my_ip_address
      0x5801A8C0#32 (by omega))
    exact read_congr_bytes (n := 4) (by omega) fun a _ ha =>
      hout a (by omega)
  show AsksUs l (arpRequest l p s.cpu.mem)
  refine ⟨?_, ?_, ?_⟩
  · rw [hr'.ready.recv_packet]
    exact (word_swapped hop).trans (by decide)
  · rw [hr'.ready.recv_packet]
    exact (word_swapped hhwt).trans (by decide)
  · rw [hr'.ready.recv_packet, hours]
    exact htarget.read (n := 4)

/-- A machine with its registers set at a call. -/
theorem at_mem (s : Nic) (regs : Reg → BitVec 64) :
    (s.at regs).cpu.mem = s.cpu.mem := rfl

theorem stackRoom_at {n : Nat} (s : Nic) {regs : Reg → BitVec 64}
    (hlo : 0x5100 + n ≤ (regs .rsp).toNat)
    (hhi : (regs .rsp).toNat ≤ 0x10000) : StackRoom n (s.at regs).cpu :=
  ⟨hlo, hhi⟩

theorem stackRoom_dma {n : Nat} (f : Dma) (h : StackRoom n s.cpu) :
    StackRoom n (s.dma f).cpu := ⟨h.1, h.2⟩

theorem afterInit_counts (l : NicLabels L) (c : Cpu) :
    (afterInit l c).sent = 0 ∧ (afterInit l c).received = 0 := ⟨rfl, rfl⟩

/-- A machine after `e1000_init_mem`, the rings at 0x210000, with a request
for us in the receive buffer. -/
theorem asked_machine : ∃ (v : BitVec 64) (s : Nic),
    RingRoom 0x210000#64 ∧ StackRoom 360 s.cpu
      ∧ RingsAt nicLabels 0x210000#64 v 0 0 s.cpu.mem
      ∧ AsksUs nicLabels s.cpu.mem := by
  have hb : BeforeInit nicLabels (usedUpTo 0x200000#64) :=
    beforeInit_usedUpTo (by decide) (by decide)
  have hrings := (rings_afterInit hb).rings
  have hroom := hb.room
  have hbase : ringBase nicLabels (usedUpTo 0x200000#64) = 0x210000#64 := by
    rw [ringBase_usedUpTo]
    decide
  obtain ⟨hsent, hrecv⟩ := afterInit_counts nicLabels
    (usedUpTo 0x200000#64)
  rw [hbase, hsent, hrecv] at hrings
  rw [hbase] at hroom
  generalize afterInit nicLabels (usedUpTo 0x200000#64) = s₀ at hrings
  have hstack : StackRoom 360 (s₀.at fun _ => 0xB000#64).cpu :=
    stackRoom_at s₀ (by decide) (by decide)
  rw [← at_mem s₀ fun _ => 0xB000#64] at hrings
  generalize s₀.at (fun _ => 0xB000#64) = s at hrings hstack
  exact ⟨_, s.dma (arpRequest nicLabels 0x210000#64), hroom,
    stackRoom_dma _ hstack,
    ((arpRequest_leaves hroom).keeps s).ringsAt hroom hrings,
    arpRequest_asks hroom hrings⟩

/-- The instance for a request, answered. -/
theorem arp_replies_iff_sample : ∃ s s',
    process_arp nicLabels [markSent 0x210000#64 0] s = some s'
      ∧ AsksUs nicLabels s.cpu.mem
      ∧ (AnswersWell nicLabels s s' ↔ ¬ AsksUs nicLabels s.cpu.mem) := by
  obtain ⟨v, s, hp, hs, hr, hasks⟩ := asked_machine
  obtain ⟨s', hrun⟩ := asked_returns hp hs hr (by omega) hasks
  exact ⟨s, s', hrun, hasks, arp_replies_iff nicLabels _ _ 0 0 _ s' _ hp hs hr
    (by omega)
    (List.forall_mem_singleton.2 (markSent_leavesPacket hp (by omega)))
    hrun⟩

/-- A request for 192.168.1.88 is answered with the bytes of the hardware
type exchanged. -/
theorem arp_reply_malformed : ¬ ∀ (L : Layout) (l : NicLabels L)
    (p v : BitVec 64) (i j : Nat) (s s' : Nic) (reply : List Dma),
    RingRoom p → StackRoom 360 s.cpu → RingsAt l p v i j s.cpu.mem →
    i < 0x800 → (∀ f ∈ reply, LeavesPacket p f) →
    process_arp l reply s = some s' → AnswersWell l s s' := by
  intro hall
  obtain ⟨v, s, hp, hs, hr, hasks⟩ := asked_machine
  obtain ⟨s', hrun⟩ := asked_returns hp hs hr (by omega) hasks
  have hcard : ∀ f ∈ [markSent 0x210000#64 0],
      LeavesPacket 0x210000#64 f :=
    List.forall_mem_singleton.2 (markSent_leavesPacket hp (by omega))
  obtain ⟨hsent, hreply⟩ := answer_sent hp hs hr (by omega) hasks hcard hrun
  obtain ⟨-, hgood⟩ := hall _ nicLabels _ _ 0 0 _ s' _ hp hs hr (by omega)
    hcard hrun (by omega)
  have hwrong := hgood.ar_hwt.symm.trans hreply.ar_hwt
  exact absurd hwrong (by decide)

end BootLoader.ThirdStage
