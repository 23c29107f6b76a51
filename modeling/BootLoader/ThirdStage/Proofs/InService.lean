/-
What the interrupt stubs leave in service on the controllers.

A registered line is acknowledged, handled, and ended on both controllers:
one bit was set on each at most, and the end of interrupt clears it
(`serve_registered`). On the default path `irq_common_stub` jumps past the
end of interrupt, so the line stays in service (`serve_unregistered`). Over
a sequence, nothing stays in service exactly when every interrupt found a
handler (`irqs_idle_iff`).
-/
import BootLoader.ThirdStage.Proofs.Stubs

namespace BootLoader.ThirdStage

open FlatMemory Mem Pic8259

variable {p q : Pair} {k : Fin 16} {handler : Handlers} {m : Machine}

-- ======================================================= the controllers

/-- Both controllers initialised, neither with the automatic end of
interrupt. -/
structure Normal (p : Pair) : Prop where
  ready : p.Ready
  master : p.master.icw4.getLsbD 1 = false
  slave : p.slave.icw4.getLsbD 1 = false

theorem Normal.within (h : Normal p) (hw : p.Within q) : Normal q :=
  ⟨hw.isReady, hw.1.icw4 ▸ h.master, hw.2.icw4 ▸ h.slave⟩

theorem normal_configured : Normal configured := ⟨⟨rfl, rfl⟩, rfl, rfl⟩

theorem idle_configured : configured.Idle := ⟨rfl, rfl⟩

/-- A line taken by an idle controller is the only one in service. -/
theorem take_isr {c : Controller} (hmode : c.icw4.getLsbD 1 = false)
    (hidle : c.isr = 0#8) (i : Nat) : (c.take i).isr = 1#8 <<< i := by
  unfold Controller.take
  rw [if_neg (Bool.eq_false_iff.1 hmode)]
  show c.isr ||| 1#8 <<< i = _
  rw [hidle, BitVec.zero_or]

theorem take_keeps (c : Controller) (i : Nat) :
    (c.take i).stage = c.stage ∧ (c.take i).icw4 = c.icw4 := by
  unfold Controller.take
  split <;> exact ⟨rfl, rfl⟩

/-- The only bit of a shifted one. -/
theorem of_getLsbD_one_shift {i j : Nat}
    (h : (1#8 <<< i).getLsbD j = true) : j = i := by
  rw [BitVec.getLsbD_shiftLeft] at h
  simp only [Bool.and_eq_true, decide_eq_true_eq, Bool.not_eq_true',
    decide_eq_false_iff_not, BitVec.getLsbD_one] at h
  omega

theorem one_shift_ne_zero {i : Nat} (hi : i < 8) : 1#8 <<< i ≠ 0#8 := by
  have hall : ∀ j : Fin 8, 1#8 <<< j.val ≠ 0#8 := by decide
  exact hall ⟨i, hi⟩

/-- After an acknowledgement at rest: one line of each controller at most
is in service, and one of the two has one. -/
theorem acknowledge_spec (h : Normal p) (hidle : p.Idle) (k : Fin 16) :
    Normal (p.acknowledge k) ∧ ¬ (p.acknowledge k).Idle
      ∧ (∃ i < 8, ∀ j,
        (p.acknowledge k).master.isr.getLsbD j = true → j = i)
      ∧ (∃ i < 8, ∀ j,
        (p.acknowledge k).slave.isr.getLsbD j = true → j = i) := by
  obtain ⟨⟨hms, hss⟩, hm, hs⟩ := h
  obtain ⟨hmi, hsi⟩ := hidle
  unfold Pair.acknowledge
  by_cases hk : (k : Nat) < 8
  · rw [if_pos hk]
    have htake := take_isr hm hmi k
    obtain ⟨hstage, hicw⟩ := take_keeps p.master k
    refine ⟨⟨⟨hstage.trans hms, hss⟩, by rw [hicw]; exact hm, hs⟩, ?_,
      ⟨k, hk, ?_⟩, ⟨0, by omega, ?_⟩⟩
    · rintro ⟨hzero, -⟩
      exact one_shift_ne_zero hk (htake.symm.trans hzero)
    · intro j hj
      rw [htake] at hj
      exact of_getLsbD_one_shift hj
    · intro j hj
      rw [show p.slave.isr = 0#8 from hsi, BitVec.getLsbD_zero] at hj
      exact absurd hj (by simp)
  · rw [if_neg hk]
    have htm := take_isr hm hmi 2
    have hts := take_isr hs hsi (k - 8)
    obtain ⟨hstage, hicw⟩ := take_keeps p.master 2
    obtain ⟨hstage', hicw'⟩ := take_keeps p.slave (k - 8)
    have hk16 := k.isLt
    refine ⟨⟨⟨hstage.trans hms, hstage'.trans hss⟩, by rw [hicw]; exact hm,
      by rw [hicw']; exact hs⟩, ?_, ⟨2, by omega, ?_⟩,
      ⟨k - 8, by omega, ?_⟩⟩
    · rintro ⟨hzero, -⟩
      exact one_shift_ne_zero (by omega) (htm.symm.trans hzero)
    · intro j hj
      rw [htm] at hj
      exact of_getLsbD_one_shift hj
    · intro j hj
      rw [hts] at hj
      exact of_getLsbD_one_shift hj

/-- The end of interrupt on both controllers. -/
theorem outb_eoi (p : Pair) :
    (p.outb MASTER_PIC_COMMAND_PORT 0x20#8).outb SLAVE_PIC_COMMAND_PORT
      0x20#8
      = ⟨p.master.endOfInterrupt, p.slave.endOfInterrupt⟩ := by
  simp [Pair.outb, Controller.command, MASTER_PIC_COMMAND_PORT,
    SLAVE_PIC_COMMAND_PORT]

-- =========================================================== one interrupt

/-- An interrupted machine, the gate it goes through, and the line. The
controllers are not this machine's but what the run so far left. -/
structure Delivery where
  state : Machine
  gate : Gate
  line : Fin 16

namespace Delivery

/-- The line is acknowledged, and the processor goes through the gate. -/
def entry (d : Delivery) (p : Pair) : Machine :=
  { d.state with pic := p.acknowledge d.line }.enter d.gate none

/-- The controllers after the stub's `iretq`. -/
def serve (handler : Handlers) (d : Delivery) (p : Pair) : Pair :=
  (irq handler d.line (d.entry p)).iretq.pic

/-- The memory once everything the interrupt pushes is on the stack. -/
def pushed (d : Delivery) : Mem :=
  (irq_pushes d.line (d.state.enter d.gate none)).cpu.pushaq.mem

/-- The stub finds a handler in the array. -/
def Registered (d : Delivery) : Prop :=
  handlerEntry d.pushed (32 + d.line) ≠ 0#64

instance (d : Delivery) : Decidable d.Registered :=
  inferInstanceAs (Decidable (_ ≠ _))

end Delivery

/-- Interrupts one after another: the controllers after each. -/
def served (handler : Handlers) (p : Pair) : List Delivery → List Pair
  | [] => []
  | d :: ds => d.serve handler p :: served handler (d.serve handler p) ds

/-- Handlers reach the controllers by port writes, none of which starts
an initialisation. -/
def Operating (handler : Handlers) : Prop :=
  ∀ a m, ∃ ws, (∀ w ∈ ws, Pair.Operates w)
    ∧ (handler a m).pic = m.pic.outs ws

/-- The controllers after a stub, from what its call leaves. -/
theorem serve_eq (handler : Handlers) (d : Delivery) (p : Pair) :
    d.serve handler p
      = (irq_call handler (stub_entry (irq_pushes d.line
        (d.entry p)))).pic := rfl

/-- What the stub tests does not depend on the controllers. -/
theorem serve_rax (d : Delivery) (p : Pair) :
    (stub_entry (irq_pushes d.line (d.entry p))).cpu.reg .rax
      = handlerEntry d.pushed (32 + d.line) :=
  irq_rax (m := d.entry p) Machine.enter_holds (Nat.le_succ 5) d.line

theorem serve_pic (d : Delivery) (p : Pair) :
    (stub_entry (irq_pushes d.line (d.entry p))).pic
      = p.acknowledge d.line :=
  (stub_entry_cpu _).2.2.2.2

/-- With a handler the controllers are at rest again. -/
theorem serve_registered (hh : Operating handler) {d : Delivery}
    (hd : d.Registered) (h : Normal p) (hidle : p.Idle) :
    Normal (d.serve handler p) ∧ (d.serve handler p).Idle := by
  obtain ⟨hack, -, ⟨i, hi, hm⟩, ⟨j, hj, hs⟩⟩ :=
    acknowledge_spec h hidle d.line
  rw [serve_eq]
  unfold irq_call
  rw [serve_rax, if_neg hd]
  simp only [outAl_pic, out_byte_al, out_byte_pic, outb_eoi]
  obtain ⟨ws, hws, hpic⟩ := hh (handlerEntry d.pushed (32 + d.line))
    (stub_entry (irq_pushes d.line (d.entry p)))
  rw [serve_pic] at hpic
  rw [hpic]
  have hwithin := Pair.outs_within hws hack.ready
  have hnormal := hack.within hwithin
  refine ⟨hnormal.within ⟨Controller.endOfInterrupt_within hnormal.ready.1,
    Controller.endOfInterrupt_within hnormal.ready.2⟩, ?_, ?_⟩
  · exact Controller.endOfInterrupt_isr hi fun b hb =>
      hm b (hwithin.1.isr b hb)
  · exact Controller.endOfInterrupt_isr hj fun b hb =>
      hs b (hwithin.2.isr b hb)

/-- Without one the line stays in service. -/
theorem serve_unregistered {d : Delivery} (hd : ¬ d.Registered)
    (h : Normal p) (hidle : p.Idle) : ¬ (d.serve handler p).Idle := by
  obtain ⟨-, hbusy, -⟩ := acknowledge_spec h hidle d.line
  rw [serve_eq]
  unfold irq_call
  rw [serve_rax, if_pos (not_not.1 hd), Machine.run_pic, serve_pic]
  exact hbusy

-- ============================================================= sequences

/-- From controllers at rest, they are at rest after every stub exactly
when every interrupt finds a handler. -/
theorem served_idle_iff (hh : Operating handler) (ds : List Delivery)
    (h : Normal p) (hidle : p.Idle) :
    (∀ q ∈ served handler p ds, q.Idle) ↔ ∀ d ∈ ds, d.Registered := by
  induction ds generalizing p with
  | nil => exact ⟨fun _ _ hd => by simp at hd, fun _ _ hq => by
      simp [served] at hq⟩
  | cons d ds ih =>
      unfold served
      rw [List.forall_mem_cons, List.forall_mem_cons]
      by_cases hd : d.Registered
      · obtain ⟨hnormal, hrest⟩ := serve_registered hh hd h hidle
        rw [ih hnormal hrest]
        exact and_congr_left fun _ => ⟨fun _ => hd, fun _ => hrest⟩
      · constructor
        · rintro ⟨hrest, -⟩
          exact absurd hrest (serve_unregistered hd h hidle)
        · rintro ⟨hreg, -⟩
          exact absurd hreg hd

/-- After `configure_pic`, no line is left in service by any sequence of
interrupts exactly when each finds a handler in the array. -/
theorem irqs_idle_iff (hh : Operating handler) (m : Machine)
    (ds : List Delivery) :
    (∀ q ∈ served handler (configure_pic m).pic ds, q.Idle)
      ↔ ∀ d ∈ ds, d.Registered := by
  rw [configure_pic_pic]
  exact served_idle_iff hh ds normal_configured idle_configured

/-- An interrupt on the kernel's stack, with this memory. -/
def deliveryAt (mem : Mem) (k : Fin 16) : Delivery where
  state := interruptedMachine.run fun c => { c with mem := mem }
  gate := sampleGate
  line := k

/-- There the stub finds what the memory held. -/
theorem deliveryAt_entry (mem : Mem) (k : Fin 16) :
    handlerEntry (deliveryAt mem k).pushed (32 + k)
      = handlerEntry mem (32 + k) := by
  have hk := k.isLt
  refine handlerEntry_congr (by omega) fun b hlo _ => ?_
  refine irq_pushed_mem (deliveryAt mem k).state _ k fun hu => ?_
  have hbase : (deliveryAt mem k).state.frameBase = 0xB000#64 := by
    show ((maskedMachine 0#8 0#8).cpu.set .rsp 0xB000#64).reg .rsp
      &&& ~~~15#64 = _
    rw [Cpu.set_reg_self]
    decide
  rw [hbase, under_iff (by decide)] at hu
  have hlit : (0xB000#64).toNat = 0xB000 := rfl
  omega

theorem operating_idle : Operating fun _ m => m :=
  fun _ _ => ⟨[], fun _ hw => by simp at hw, rfl⟩

/-- The instance of three lines with handlers. -/
theorem irqs_idle_iff_sample :
    ((served (fun _ m => m) (configure_pic interruptedMachine).pic
      [deliveryAt (fun _ => 1#8) 0, deliveryAt (fun _ => 1#8) 9,
        deliveryAt (fun _ => 1#8) 3]).all fun q => decide q.Idle) = true := by
  have hreg : ∀ k, (deliveryAt (fun _ => 1#8) k).Registered := by
    intro k hzero
    rw [show (deliveryAt (fun _ => 1#8) k).line = k from rfl,
      deliveryAt_entry] at hzero
    exact absurd hzero (by decide +revert)
  have hall := (irqs_idle_iff operating_idle interruptedMachine
    [deliveryAt (fun _ => 1#8) 0, deliveryAt (fun _ => 1#8) 9,
      deliveryAt (fun _ => 1#8) 3]).2 (by
    simp only [List.forall_mem_cons, hreg, true_and]
    exact fun _ hd => by simp at hd)
  exact List.all_eq_true.2 fun q hq => decide_eq_true (hall q hq)

/-- The timer with no handler stays in service. -/
theorem irqs_not_idle : ¬ ∀ (handler : Handlers) (m : Machine)
    (ds : List Delivery), Operating handler →
    ∀ q ∈ served handler (configure_pic m).pic ds, q.Idle := by
  intro h
  have hidle := h (fun _ m => m) interruptedMachine
    [deliveryAt (fun _ => 0#8) 0] operating_idle _ List.mem_cons_self
  rw [configure_pic_pic] at hidle
  refine serve_unregistered (fun hreg => hreg ?_) normal_configured
    idle_configured hidle
  exact (deliveryAt_entry (fun _ => 0#8) 0).trans (by decide)

end BootLoader.ThirdStage
