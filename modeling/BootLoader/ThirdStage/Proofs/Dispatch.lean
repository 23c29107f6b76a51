/-
From a line of the controllers to its handler and back.

# The chain

The controllers answer line `k` with vector 32 + `k` (`vector_configured`),
the gate of that vector leads to the line's stub, which `setup_idt_irqs`
put there (`setup_idt_irqs_spec`), the stub pushes the vector, and the
common stub reads the handler array at it (`irq_rax`). So the handler that
runs is the one last registered for 32 + `k` (`irq_dispatch`), as long as
what the interrupt pushes does not land on that entry itself.
-/
import Mathlib.Tactic.IntervalCases
import BootLoader.ThirdStage.Proofs.IdtTables

namespace BootLoader.ThirdStage

open FlatMemory Mem Words Pic8259

variable {c : Cpu} {m i : Machine} {t : Tables} {handler : Handlers}
  {l : Labels} {b : BitVec 64}

-- ============================================================ the vectors

/-- The lines have vectors 32 to 47. -/
theorem vector_configured {p : Pair}
    (hm : p.master.icw2 = configured.master.icw2)
    (hs : p.slave.icw2 = configured.slave.icw2) (k : Fin 16) :
    (p.vector k).toNat = 32 + k := by
  unfold Pair.vector Controller.number
  rw [hm, hs]
  revert k
  decide

-- ========================================================== configure_pic

/-- A byte written to a port takes AL and no memory. -/
theorem out_byte_cpu (v : BitVec 8) (port : BitVec 16) (m : Machine) :
    (out_byte v port m).cpu = m.cpu.setLow8 .rax v := rfl

theorem outAl_cpu (m : Machine) (port : BitVec 16) :
    (m.outAl port).cpu = m.cpu := rfl

/-- `configure_pic` keeps the registers, and writes its stack only. -/
theorem configure_pic_cpu (m : Machine) :
    (configure_pic m).cpu.reg = m.cpu.reg
      ∧ ∀ b, ¬ Under (m.cpu.reg .rsp) 120 b →
        (configure_pic m).cpu.mem b = m.cpu.mem b := by
  have hcpu : (configure_pic m).cpu
      = ((((((((m.cpu.pushaq.setLow8 .rax 0xFF#8).setLow8 .rax
        0x11#8).setLow8 .rax 0x20#8).setLow8 .rax 0x28#8).setLow8 .rax
        0x04#8).setLow8 .rax 0x02#8).setLow8 .rax 0x01#8).setLow8 .rax
        0x0#8).popaq := by
    unfold configure_pic
    simp only [Machine.run_cpu, out_byte_cpu, outAl_cpu]
  rw [hcpu]
  generalize hd : (((((((m.cpu.pushaq.setLow8 .rax 0xFF#8).setLow8 .rax
    0x11#8).setLow8 .rax 0x20#8).setLow8 .rax 0x28#8).setLow8 .rax
    0x04#8).setLow8 .rax 0x02#8).setLow8 .rax 0x01#8).setLow8 .rax 0x0#8 = d
  have hrsp : d.reg .rsp = m.cpu.pushaq.reg .rsp := by
    rw [← hd]
    simp only [Cpu.setLow8_reg, reduceCtorEq, if_false]
  have hmem : d.mem = m.cpu.pushaq.mem := by
    rw [← hd]
    simp only [Cpu.setLow8_mem]
  obtain ⟨hreg, hkeep⟩ := Cpu.popaq_undo (c := m.cpu) (d := d) hrsp (by
    rw [hmem]
    exact Same.refl _ _ _)
  refine ⟨hreg, ?_⟩
  intro b hb
  rw [hkeep, hmem]
  exact Cpu.pushaq_mem m.cpu hb

-- ========================================================= setup_idt_irqs

/-- A gate set up keeps the stack pointer. -/
theorem setup_entry_rsp (label : BitVec 64) (n : Fin 256)
    (hs : ClearStack (c.reg .rsp) 120) :
    (setup_entry label (BitVec.ofNat 64 n) c).reg .rsp = c.reg .rsp := by
  have hsp := args_rsp c label (BitVec.ofNat 64 n)
  obtain ⟨ht, -⟩ := setup_idt_entry_spec
    (c := (c.set .rsi label).set .rdi (BitVec.ofNat 64 n)) n.isLt
    (Cpu.set_reg_self _ _ _) (hsp ▸ hs)
  unfold setup_entry
  rw [ht.reg]
  exact hsp

/-- Gates set up one after another by the same caller. -/
theorem setup_entries_spec {α : Type} (label : α → BitVec 64)
    (num : α → Fin 256) (es : List (α × BitVec 64))
    (hnum : ∀ e ∈ es, e.2 = BitVec.ofNat 64 (num e.1))
    (hr : Represents c.mem t) (hs : ClearStack (c.reg .rsp) 120) :
    Represents (es.foldl (fun c e => setup_entry (label e.1) e.2 c) c).mem
        (es.foldl (fun t e => t.step (.setup (num e.1) (label e.1))) t)
      ∧ (es.foldl (fun c e => setup_entry (label e.1) e.2 c) c).reg .rsp
        = c.reg .rsp := by
  induction es generalizing c t with
  | nil => exact ⟨hr, rfl⟩
  | cons e es ih =>
      have hfirst := (IdtCall.run_spec hr hs
        (.setup (num e.1) (label e.1))).1
      have hsame : IdtCall.run c (.setup (num e.1) (label e.1))
          = setup_entry (label e.1) e.2 c := by
        rw [hnum e List.mem_cons_self]
        rfl
      rw [hsame] at hfirst
      have hrsp : (setup_entry (label e.1) e.2 c).reg .rsp
          = c.reg .rsp := by
        rw [hnum e List.mem_cons_self]
        exact setup_entry_rsp _ _ hs
      obtain ⟨hrest, hlast⟩ := ih
        (fun e' he' => hnum e' (List.mem_cons_of_mem _ he')) hfirst
        (by
          rw [hrsp]
          exact hs)
      exact ⟨hrest, hlast.trans hrsp⟩

/-- The vector of line `k`. -/
def irqNumber (k : Fin 16) : Fin 256 := ⟨32 + k, by omega⟩

/-- The tables once the lines are set up. -/
def withIrqs (l : Labels) (t : Tables) : Tables :=
  idt_irqs.foldl (fun t e =>
    t.step (.setup (irqNumber e.1) (l.addr (.irq e.1)))) t

theorem withIrqs_gate (l : Labels) (t : Tables) (k : Fin 16) :
    (withIrqs l t).gate (irqNumber k) = some (l.addr (.irq k)) := by
  obtain ⟨k, hk⟩ := k
  interval_cases k <;> rfl

theorem withIrqs_handler (l : Labels) (t : Tables) :
    (withIrqs l t).handler = t.handler := rfl

/-- Every line once, at its vector. -/
theorem idt_irqs_eq : idt_irqs = (List.finRange 16).map fun k =>
    (k, BitVec.ofNat 64 (irqNumber k)) := rfl

/-- `setup_idt_irqs` sets up the gates of the lines. -/
theorem setup_idt_irqs_spec (hr : Represents c.mem t)
    (hs : ClearStack (c.reg .rsp) 240) :
    Represents (setup_idt_irqs l c).mem (withIrqs l t) := by
  have hnum : ∀ e ∈ idt_irqs, e.2 = BitVec.ofNat 64 (irqNumber e.1) := by
    intro e he
    rw [idt_irqs_eq] at he
    obtain ⟨k, -, rfl⟩ := List.mem_map.1 he
    rfl
  have hpush : Represents c.pushaq.mem t := by
    refine hr.congr fun b hlo hhi => Cpu.pushaq_mem c fun hu => ?_
    have hclear := hs b (hu.mono (by omega))
    omega
  have hinner : ClearStack (c.pushaq.reg .rsp) 120 := by
    intro b hu
    rw [Cpu.pushaq_rsp] at hu
    exact hs b hu.of_sub
  obtain ⟨hset, -⟩ := setup_entries_spec (fun k => l.addr (.irq k)) irqNumber
    idt_irqs hnum hpush hinner
  unfold setup_idt_irqs
  rw [Cpu.popaq_mem]
  exact hset

/-- `init_idt`, `configure_pic` and `setup_idt_irqs`. -/
def irq_setup (l : Labels) (m : Machine) : Machine :=
  let m := m.run init_idt
  let m := configure_pic m
  m.run (setup_idt_irqs l)

/-- The lines set up by a machine whose tables are known. -/
theorem configure_irqs {c₀ : Cpu} (hm : m.cpu = c₀)
    (hr : Represents c₀.mem t) (hs : ClearStack (c₀.reg .rsp) 240) :
    Represents (setup_idt_irqs l (configure_pic m).cpu).mem
      (withIrqs l t) := by
  subst hm
  obtain ⟨hreg, hmem⟩ := configure_pic_cpu m
  refine setup_idt_irqs_spec ?_ (by rw [hreg]; exact hs)
  refine hr.congr fun b hlo hhi => hmem b fun hu => ?_
  have hclear := hs b (hu.mono (by omega))
  omega

/-- The state they leave. -/
theorem irq_setup_spec (hs : ClearStack (m.cpu.reg .rsp) 240) :
    Represents (irq_setup l m).cpu.mem (withIrqs l .empty)
      ∧ (irq_setup l m).pic = configured := by
  have hs' : ClearStack (m.cpu.reg .rsp) 120 := hs.mono (by omega)
  have hrsp : (init_idt m.cpu).reg = m.cpu.reg := (init_idt_spec hs').1.reg
  unfold irq_setup
  rw [Machine.run_cpu, Machine.run_pic]
  refine ⟨configure_irqs (Machine.run_cpu m init_idt) (represents_init hs') ?_,
    configure_pic_pic _⟩
  rw [hrsp]
  exact hs

-- ========================================================== registrations

/-- Calls of `register_idt_handler`: the caller's registers, the vector and
the handler. -/
abbrev Registrations := List ((Reg → BitVec 64) × Fin 256 × BitVec 64)

def Registrations.calls (rs : Registrations) :
    List ((Reg → BitVec 64) × IdtCall) :=
  rs.map fun r => (r.1, .register r.2.1 r.2.2)

/-- The handler last registered for a vector. -/
def lastRegistered (rs : Registrations) (n : Fin 256) :
    Option (BitVec 64) :=
  rs.foldl (fun h r => if n = r.2.1 then some r.2.2 else h) none

/-- The handler of line `k`; the address zero stands for none. -/
def handlerOf (rs : Registrations) (k : Fin 16) : Option (BitVec 64) :=
  (lastRegistered rs (irqNumber k)).filter fun h => h != 0#64

/-- Registrations change the handlers as listed, and no gate. -/
theorem registrations_tables (rs : Registrations) (t : Tables) :
    (((rs.calls).map Prod.snd).foldl Tables.step t).gate = t.gate
      ∧ ∀ n, (((rs.calls).map Prod.snd).foldl Tables.step t).handler n
        = rs.foldl (fun h r => if n = r.2.1 then some r.2.2 else h)
          (t.handler n) := by
  induction rs generalizing t with
  | nil => exact ⟨rfl, fun _ => rfl⟩
  | cons r rs ih =>
      obtain ⟨hgate, hhandler⟩ := ih (t.step (.register r.2.1 r.2.2))
      exact ⟨hgate, hhandler⟩

/-- The kernel with its handlers registered. -/
def kernel (l : Labels) (m : Machine) (rs : Registrations) : Machine :=
  (irq_setup l m).run fun c => idt_calls c rs.calls

/-- What the kernel's tables hold. -/
structure KernelTables (l : Labels) (rs : Registrations) (mem : Mem) : Prop where
  gate : ∀ k : Fin 16, Gate.decode mem (gateAddr (32 + k))
    = ⟨l.addr (.irq k), 0x8#16, 0#3, 0x8E#8⟩
  handler : ∀ k : Fin 16, handlerEntry mem (32 + k)
    = (lastRegistered rs (irqNumber k)).getD 0#64

theorem kernel_set {rs : Registrations}
    (hs : ClearStack (m.cpu.reg .rsp) 240) (hrs : ClearStacks rs.calls) :
    KernelTables l rs (kernel l m rs).cpu.mem
      ∧ (kernel l m rs).pic = configured := by
  obtain ⟨hr, hpic⟩ := irq_setup_spec (l := l) hs
  obtain ⟨hreg, -⟩ := idt_calls_spec rs.calls hr hrs
  obtain ⟨hgate, hhandler⟩ := registrations_tables rs (withIrqs l .empty)
  unfold kernel
  rw [Machine.run_cpu, Machine.run_pic]
  refine ⟨⟨?_, ?_⟩, hpic⟩
  · intro k
    have hdecode := hreg.decode (irqNumber k)
    rw [hgate, withIrqs_gate] at hdecode
    exact hdecode
  · intro k
    have hentry := hreg.handler (irqNumber k)
    rw [hhandler, withIrqs_handler] at hentry
    exact hentry

-- ============================================================== the labels

theorem mem_stubs (s : Stub) : s ∈ stubs := by
  unfold stubs
  cases s with
  | isr v => simp
  | irq k => simp
  | isr255 => simp

/-- A label names its stub. -/
theorem Labels.at_addr (l : Labels) (s : Stub) : l.at (l.addr s) = some s := by
  unfold Labels.at
  have hfound : (stubs.find? fun s' => l.addr s' == l.addr s).isSome :=
    List.find?_isSome.2 ⟨s, mem_stubs s, beq_self_eq_true (l.addr s)⟩
  obtain ⟨s', hs'⟩ := Option.isSome_iff_exists.1 hfound
  have hsame := List.find?_some hs'
  rw [hs', l.distinct (eq_of_beq hsame)]

-- ============================================================ the delivery

/-- A machine interrupted at any point after the set-up: the two tables,
the controllers' vectors and the IDTR are as they were left, and nothing
else need be. -/
structure Interrupted (boot i : Machine) : Prop where
  tables : ∀ b : BitVec 64, 0x40000 ≤ b.toNat → b.toNat < 0x41800 →
    i.cpu.mem b = boot.cpu.mem b
  master : i.pic.master.icw2 = boot.pic.master.icw2
  slave : i.pic.slave.icw2 = boot.pic.slave.icw2
  idtr : i.idtr = IDT_DESCRIPTOR

/-- Line `k` from the acknowledgement to the test of the handler's
address. -/
def atCall (l : Labels) (i : Machine) (k : Fin 16) : Machine :=
  stub_entry (irq_pushes k ({ i with pic := i.pic.acknowledge k }.enter
    ⟨l.addr (.irq k), 0x8#16, 0#3, 0x8E#8⟩ none))

/-- From the call of `h`, or of the default handler, to the resumed
code. -/
def serveLine (handler : Handlers) (h : Option (BitVec 64)) (e : Machine) :
    Machine :=
  (stub_exit (match h with
    | some a =>
        (out_byte 0x20#8 MASTER_PIC_COMMAND_PORT (handler a e)).outAl
          SLAVE_PIC_COMMAND_PORT
    | none => e.run idt_default_handler)).iretq

theorem KernelTables.congr {rs : Registrations} {mem mem' : Mem}
    (ht : KernelTables l rs mem)
    (hs : ∀ b : BitVec 64, 0x40000 ≤ b.toNat → b.toNat < 0x41800 →
      mem' b = mem b) : KernelTables l rs mem' := by
  refine ⟨fun k => ?_, fun k => ?_⟩
  · rw [← ht.gate k]
    have hk := k.isLt
    have haddr := gateAddr_toNat (n := 32 + k) (by omega)
    exact decode_congr fun j hj => by
      have hbyte := toNat_add_lit (x := gateAddr (32 + k)) (n := j) (by omega)
      exact hs _ (by omega) (by omega)
  · rw [← ht.handler k]
    have hk := k.isLt
    exact handlerEntry_congr (by omega) fun b hlo hhi =>
      hs b (by omega) (by omega)

variable {rs : Registrations} {k : Fin 16}

/-- The gates `setup_idt_entry` writes are ones the processor takes. -/
theorem usable_gate (a : BitVec 64) :
    ((⟨a, 0x8#16, 0#3, 0x8E#8⟩ : Gate).present
      && (⟨a, 0x8#16, 0#3, 0x8E#8⟩ : Gate).isInterrupt
      && ((⟨a, 0x8#16, 0#3, 0x8E#8⟩ : Gate).ist == 0#3)) = true := by
  simp [Gate.present, Gate.isInterrupt]

/-- The line reaches its own stub, whatever the stack. -/
theorem interrupt_reaches (ht : KernelTables l rs i.cpu.mem)
    (hm : i.pic.master.icw2 = configured.master.icw2)
    (hs : i.pic.slave.icw2 = configured.slave.icw2)
    (hidtr : i.idtr = IDT_DESCRIPTOR) (handler : Handlers) :
    interrupt l handler i k
      = some (stub_exit (irq_call handler (atCall l i k))).iretq := by
  have hvec := vector_configured hm hs k
  have hk := k.isLt
  have hlimit : ¬ (0x1000#16).toNat < 16 * (32 + k.val) + 15 := by
    rw [show (0x1000#16).toNat = 4096 from rfl]
    omega
  have hgate := ht.gate k
  unfold interrupt deliver
  simp only [hidtr, IDT_DESCRIPTOR, hvec]
  rw [if_neg hlimit]
  rw [show IDT_BASE_ADDRESS + BitVec.ofNat 64 (16 * (32 + k.val))
    = gateAddr (32 + k) from rfl, hgate]
  rw [if_pos (usable_gate _), l.at_addr, Option.map_some]
  simp only [Stub.run, irq, irq_common_stub, atCall, hidtr, IDT_DESCRIPTOR]

/-- The handler the stub finds is the one registered. -/
theorem irq_call_eq (ht : KernelTables l rs i.cpu.mem)
    (hclear : ∀ b, Under i.frameBase 176 b →
      b.toNat < (handlerAddr (32 + k)).toNat
        ∨ (handlerAddr (32 + k)).toNat + 8 ≤ b.toNat)
    (handler : Handlers) :
    (stub_exit (irq_call handler (atCall l i k))).iretq
      = serveLine handler (handlerOf rs k) (atCall l i k) := by
  have hk := k.isLt
  have haddr := handlerAddr_toNat (n := 32 + k) (by omega)
  have hrax : (atCall l i k).cpu.reg .rax
      = (lastRegistered rs (irqNumber k)).getD 0#64 := by
    unfold atCall
    rw [irq_rax (m := Machine.enter _ _ none) Machine.enter_holds
      (Nat.le_succ 5) k, ← ht.handler k]
    refine handlerEntry_congr (by omega) fun b hlo hhi => ?_
    refine irq_pushed_mem { i with pic := i.pic.acknowledge k } _ k
      fun hu => ?_
    have hout := hclear b hu
    omega
  unfold serveLine irq_call handlerOf
  rw [hrax]
  cases hlast : lastRegistered rs (irqNumber k) with
  | none => rfl
  | some h =>
      by_cases hzero : h = 0#64
      · subst hzero
        rfl
      · rw [Option.getD_some, if_neg hzero,
          Option.filter_some_pos (by simpa using hzero)]

/-- The stack at the call: the saved registers on top, and RDI points at
them. -/
theorem atCall_holds (l : Labels) (i : Machine) (k : Fin 16) :
    (atCall l i k).cpu.reg .rdi = (atCall l i k).cpu.reg .rsp
      ∧ Holds (atCall l i k).cpu.mem ((atCall l i k).cpu.reg .rdi)
        (Cpu.saved i.cpu.reg ++ BitVec.ofNat 64 (32 + k) :: 0#64
          :: i.frame) := by
  have hk := k.isLt
  let j : Machine := { i with pic := i.pic.acknowledge k }
  let e := j.enter ⟨l.addr (.irq k), 0x8#16, 0#3, 0x8E#8⟩ none
  obtain ⟨hpushed, -⟩ := irq_pushes_holds (m := e) Machine.enter_holds
    (Nat.le_succ 5) k
  obtain ⟨-, hrsp, hrdi, -, -⟩ := stub_entry_cpu (irq_pushes k e)
  have hsame : (atCall l i k).cpu.reg .rdi = (atCall l i k).cpu.reg .rsp :=
    hrdi.trans hrsp.symm
  refine ⟨hsame, ?_⟩
  have hholds := stub_entry_holds hpushed (by
    show 8 * 7 + 120 < 2 ^ 64
    omega)
  have hreg : Cpu.saved (irq_pushes k e).cpu.reg = Cpu.saved i.cpu.reg := by
    refine List.map_congr_left fun r hr => ?_
    have hne : r ≠ .rsp := fun h => absurd (h ▸ hr) (by decide)
    rw [irq_pushes_reg k hne]
    exact Machine.enter_reg hne
  rw [hreg] at hholds
  rw [hsame]
  exact hholds

/-- The interrupted code goes on as if nothing had happened. -/
theorem irq_resumes (hh : Returns handler) (l : Labels) (i : Machine)
    (k : Fin 16) :
    i.Resumes (stub_exit (irq_call handler (atCall l i k))).iretq := by
  let j : Machine := { i with pic := i.pic.acknowledge k }
  let e := j.enter ⟨l.addr (.irq k), 0x8#16, 0#3, 0x8E#8⟩ none
  obtain ⟨hpushed, -⟩ := irq_pushes_holds (m := e) Machine.enter_holds
    (Nat.le_succ 5) k
  obtain ⟨-, hreg, hframe⟩ := passes (irq_call_kept hh) hpushed (Nat.le_refl 5)
  have hres : j.Resumes
      (stub_exit (irq_call handler (stub_entry (irq_pushes k e)))).iretq := by
    refine Machine.iretq_resumes hframe fun r hr => ?_
    rw [hreg r hr, irq_pushes_reg k hr]
    exact Machine.enter_reg hr
  exact ⟨hres.rip, hres.cs, hres.rflags, hres.ss, hres.reg⟩

/-- The stack pointer at the call. -/
theorem atCall_rsp (l : Labels) (i : Machine) (k : Fin 16) :
    (atCall l i k).cpu.reg .rsp = i.frameBase - 176#64 := by
  let j : Machine := { i with pic := i.pic.acknowledge k }
  let e := j.enter ⟨l.addr (.irq k), 0x8#16, 0#3, 0x8E#8⟩ none
  have hpushes := (irq_pushes_holds (m := e) Machine.enter_holds
    (Nat.le_succ 5) k).2
  have hrsp := (stub_entry_cpu (irq_pushes k e)).2.1
  show (stub_entry (irq_pushes k e)).cpu.reg .rsp = _
  rw [hrsp, Cpu.pushaq_rsp, hpushes, Machine.enter_rsp]
  show i.frameBase - 40#64 - 0#64 - 16#64 - 120#64 = _
  simp only [BitVec.sub_sub, BitVec.reduceAdd]

/-- The address tested is the entry as it is then. -/
theorem atCall_rax (l : Labels) (i : Machine) (k : Fin 16) :
    (atCall l i k).cpu.reg .rax
      = handlerEntry (atCall l i k).cpu.mem (32 + k) := by
  unfold atCall
  rw [irq_rax (m := Machine.enter _ _ none) Machine.enter_holds
    (Nat.le_succ 5) k, (stub_entry_cpu _).1]

theorem stub_exit_idtr (m : Machine) : (stub_exit m).iretq.idtr = m.idtr :=
  rfl

theorem irq_call_idtr {e : Machine} (h : e.cpu.reg .rax ≠ 0#64) :
    (irq_call handler e).idtr = (handler (e.cpu.reg .rax) e).idtr := by
  unfold irq_call
  rw [if_neg h]
  rfl

-- ============================================================= the result

/-- After the set-up and any registrations, line `k` runs the handler last
registered for its vector, or the default one, with RDI at the saved
registers, and the interrupted state is resumed; provided the interrupt's
own 176 bytes of stack are not on the line's entry of the handler array. -/
theorem irq_dispatch (hs : ClearStack (m.cpu.reg .rsp) 240)
    (hrs : ClearStacks rs.calls) (hi : Interrupted (kernel l m rs) i)
    (hclear : ∀ b, Under i.frameBase 176 b →
      b.toNat < (handlerAddr (32 + k)).toNat
        ∨ (handlerAddr (32 + k)).toNat + 8 ≤ b.toNat)
    (hh : Returns handler) :
    interrupt l handler i k
        = some (serveLine handler (handlerOf rs k) (atCall l i k))
      ∧ (atCall l i k).cpu.reg .rdi = (atCall l i k).cpu.reg .rsp
      ∧ Holds (atCall l i k).cpu.mem ((atCall l i k).cpu.reg .rdi)
        (Cpu.saved i.cpu.reg ++ BitVec.ofNat 64 (32 + k) :: 0#64 :: i.frame)
      ∧ i.Resumes (serveLine handler (handlerOf rs k) (atCall l i k)) := by
  obtain ⟨hkernel, hpic⟩ := kernel_set (l := l) hs hrs
  have ht : KernelTables l rs i.cpu.mem := hkernel.congr hi.tables
  have hcall := irq_call_eq ht hclear handler
  refine ⟨?_, (atCall_holds l i k).1, (atCall_holds l i k).2, ?_⟩
  · rw [← hcall]
    exact interrupt_reaches ht (by rw [hi.master, hpic])
      (by rw [hi.slave, hpic]) hi.idtr handler
  · rw [← hcall]
    exact irq_resumes hh l i k

/-- Labels as an assembler could place them. -/
def sampleLabels : Labels where
  addr
    | .isr v => BitVec.ofNat 64 (0x11000 + v)
    | .irq k => BitVec.ofNat 64 (0x12000 + k)
    | .isr255 => BitVec.ofNat 64 0x13000
  distinct := by
    intro s s' h
    have hnat := congrArg BitVec.toNat h
    cases s <;> cases s' <;>
      simp only [BitVec.toNat_ofNat, Stub.isr.injEq, Stub.irq.injEq,
        reduceCtorEq, Fin.ext_iff] at hnat ⊢ <;> omega

/-- The kernel interrupted with these registers. -/
def interruptedAt (rs : Registrations) (reg : Reg → BitVec 64) : Machine :=
  { kernel sampleLabels interruptedMachine rs with
    cpu := { (kernel sampleLabels interruptedMachine rs).cpu with reg := reg }
    idtr := IDT_DESCRIPTOR }

theorem interrupted_at (rs : Registrations) (reg : Reg → BitVec 64) :
    Interrupted (kernel sampleLabels interruptedMachine rs)
      (interruptedAt rs reg) :=
  ⟨fun _ _ _ => rfl, rfl, rfl, rfl⟩

theorem clearStack_sample :
    ClearStack (interruptedMachine.cpu.reg .rsp) 240 := by
  have hrsp : interruptedMachine.cpu.reg .rsp = 0xB000#64 :=
    Cpu.set_reg_self _ _ _
  rw [hrsp]
  exact clearStack_of_le (by decide) (by decide)

/-- The keyboard's line with a handler. -/
def keyboard : Registrations :=
  [(kernelRegs, ⟨33, by decide⟩, 0x14000#64)]

theorem clearStacks_keyboard : ClearStacks keyboard.calls := by
  intro x hx
  rw [List.mem_singleton.1 hx]
  exact clearStack_kernel

/-- The instance of the keyboard's line. -/
theorem irq_dispatch_sample :
    interrupt sampleLabels (fun _ m => m) (interruptedAt keyboard kernelRegs) 1
        = some (serveLine (fun _ m => m) (some 0x14000#64)
          (atCall sampleLabels (interruptedAt keyboard kernelRegs) 1))
      ∧ (interruptedAt keyboard kernelRegs).Resumes
        (serveLine (fun _ m => m) (some 0x14000#64)
          (atCall sampleLabels (interruptedAt keyboard kernelRegs) 1)) := by
  have hclear : ∀ b, Under (interruptedAt keyboard kernelRegs).frameBase 176 b →
      b.toNat < (handlerAddr (32 + (1 : Fin 16))).toNat
        ∨ (handlerAddr (32 + (1 : Fin 16))).toNat + 8 ≤ b.toNat := by
    intro b hu
    have hbase : (interruptedAt keyboard kernelRegs).frameBase = 0xB000#64 := by
      show 0xB000#64 &&& ~~~15#64 = _
      decide
    rw [hbase, under_iff (by decide), toNat_lit (by decide)] at hu
    rw [handlerAddr_toNat (by decide)]
    omega
  obtain ⟨hruns, -, -, hres⟩ := irq_dispatch clearStack_sample
    clearStacks_keyboard (interrupted_at keyboard kernelRegs) hclear returns_idle
  exact ⟨hruns, hres⟩

/-- A stack on the handler array: what the interrupt pushes on the entry
of the timer's line is taken for a handler. -/
theorem irq_dispatch_on_array : ¬ ∀ (l : Labels) (m : Machine)
    (rs : Registrations) (i : Machine) (k : Fin 16) (handler : Handlers),
    ClearStack (m.cpu.reg .rsp) 240 → ClearStacks rs.calls →
    Interrupted (kernel l m rs) i → Returns handler →
    interrupt l handler i k
        = some (serveLine handler (handlerOf rs k) (atCall l i k))
      ∧ (atCall l i k).cpu.reg .rdi = (atCall l i k).cpu.reg .rsp
      ∧ Holds (atCall l i k).cpu.mem ((atCall l i k).cpu.reg .rdi)
        (Cpu.saved i.cpu.reg ++ BitVec.ofNat 64 (32 + k) :: 0#64 :: i.frame)
      ∧ i.Resumes (serveLine handler (handlerOf rs k) (atCall l i k)) := by
  intro h
  let i := interruptedAt [] fun _ => 0x41110#64
  let handler : Handlers := fun _ m => { m with idtr := ⟨0#16, 0#64⟩ }
  have hret : Returns handler := fun _ _ => ⟨rfl, Same.refl _ _ _⟩
  have hi : Interrupted (kernel sampleLabels interruptedMachine []) i :=
    interrupted_at [] _
  have hnone : ClearStacks (Registrations.calls []) := fun _ hx => by
    simp [Registrations.calls] at hx
  obtain ⟨hkernel, hpic⟩ := kernel_set (l := sampleLabels)
    clearStack_sample hnone
  have hreach := interrupt_reaches (k := 0) (hkernel.congr hi.tables)
    (by rw [hi.master, hpic]) (by rw [hi.slave, hpic]) hi.idtr handler
  obtain ⟨hruns, hrdi, hholds, -⟩ := h sampleLabels interruptedMachine [] i 0
    handler clearStack_sample hnone hi hret
  -- the entry is the quadword where the processor saved RSP
  have hbase : i.frameBase = 0x41110#64 := by
    show 0x41110#64 &&& ~~~15#64 = _
    decide
  rw [hrdi, atCall_rsp, hbase] at hholds
  have hlist : Holds (atCall sampleLabels i 0).cpu.mem
      (0x41110#64 - 176#64) ((Cpu.saved i.cpu.reg
        ++ [32#64, 0#64, i.rip, i.cs.setWidth 64, i.rflags])
        ++ [0x41110#64, i.ss.setWidth 64]) := hholds
  have hsaved : (atCall sampleLabels i 0).cpu.mem.read64 (handlerAddr 32)
      = 0x41110#64 := hlist.tail.1
  have hrax : (atCall sampleLabels i 0).cpu.reg .rax ≠ 0#64 := by
    rw [atCall_rax]
    exact fun hzero => absurd (hsaved.symm.trans hzero) (by decide)
  rw [hreach] at hruns
  have hidtr := congrArg Machine.idtr (Option.some.inj hruns)
  rw [stub_exit_idtr, irq_call_idtr hrax] at hidtr
  exact absurd hidtr (by
    show ¬ (⟨0#16, 0#64⟩ : Idtr) = IDT_DESCRIPTOR
    decide)

end BootLoader.ThirdStage
