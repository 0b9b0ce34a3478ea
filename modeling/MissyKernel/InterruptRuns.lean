import MissyKernel.ExceptionScreens
import MissyKernel.PicEoi
import MissyKernel.PicLines
import MissyKernel.Simulation

/-!
# Interrupts while the kernel runs (`timer_irq.asm`, `serial_irq.asm`)

The machine step by step, from the moment both drivers are installed: the kernel's own code
does what it likes, but for the controllers; requests come at any time; the processor takes an
interrupt between any two instructions with its flag set, and runs the handler one line at a
time, with requests still coming. The second machine has no handlers: an interrupt there is
one step, which counts the timer's tick and changes nothing else.

Every run of the first is a run of the second, so that no tick is lost or counted twice, the
interrupted code goes on with what it had, and the controllers never have a line in service
that keeps another one waiting.

The simulation relates a state inside a handler to the one in which the second machine has taken
the interrupt already: `Leading` says how far the handler has come, and `Leading.step` that each
line of it is a step of its own that the second machine does not see. A request that comes in
between commutes with the lines that are left (`outportb_request`).
-/

namespace MissyKernel

open Assembly

/-- `timer_irq` -/
def timerIrq : List (Line AsmSymbol) :=
  [.op .pushad, .op (.inc .pitTickCount), .op (.movAl 0x20), .op (.outAl 0x20),
    .op .popad, .iretd]

/-- `_serial_irq`; in code of 32 bits `iret` is the same instruction. -/
def serialIrq : List (Line AsmSymbol) :=
  [.op .pushad, .call .readSerialInput, .op (.movAl 0x20), .op (.outAl 0x20),
    .op .popad, .iretd]

/-- The controllers and the console. -/
structure Board : Type where
  /-- behind the ports -/
  pic : Pic8259a
  /-- what `puts` writes to -/
  console : Console

namespace Pic8259a

/-- A line asks for an interrupt. -/
def request (pic : Pic8259a) (irq : Fin 16) : Pic8259a :=
  if irq.val < 8 then
    { pic with master := { pic.master with
        irr := pic.master.irr ||| BitVec.twoPow 8 irq } }
  else
    { pic with slave := { pic.slave with
        irr := pic.slave.irr ||| BitVec.twoPow 8 (irq - 8) } }

/-- Whether a line's request waits. -/
def requested (pic : Pic8259a) (irq : Fin 16) : Bool :=
  if irq.val < 8 then pic.master.irr.getLsbD irq else pic.slave.irr.getLsbD (irq - 8)

/-- A master's line is served. -/
def withdraw (pic : Pic8259a) (irq : Fin 16) : Pic8259a :=
  { pic with master := { pic.master with irr := pic.master.irr &&& ~~~BitVec.twoPow 8 irq } }

/-- The chips ask the processor to take the interrupt. -/
def Delivers (pic : Pic8259a) : Interrupt → Prop
  | .genuine irq =>
    pic.requested irq = true ∧ pic.deliverable irq = true ∧ pic.Accepts (.genuine irq)
  | .spurious7 => pic.Accepts .spurious7
  | .spurious15 => pic.maskBit 2 = false ∧ pic.Accepts .spurious15

/-- The vector that the chips answer. -/
def vector (pic : Pic8259a) (i : Interrupt) : ℕ :=
  if i.line < 8 then ((pic.master.offset &&& 0xf8) ||| BitVec.ofNat 8 i.line).toNat
  else ((pic.slave.offset &&& 0xf8) ||| BitVec.ofNat 8 (i.line - 8)).toNat

/-- The lines of the timer and the serial port are open, and nothing is in service. -/
structure Quiet (pic : Pic8259a) : Prop where
  /-- nothing on the master -/
  masterIsr : pic.master.isr = 0
  /-- nothing on the slave -/
  slaveIsr : pic.slave.isr = 0
  /-- lines 0 and 4 are open -/
  masterImr : pic.master.imr = 0xee
  /-- no line is -/
  slaveImr : pic.slave.imr = 0xff
  /-- the master's vectors are from 32 on -/
  masterOffset : pic.master.offset = 0x20

end Pic8259a

/-- The handlers' files are linked with C that does not look at the controllers. -/
structure InterruptMachine (p : Program AsmSymbol Board) : Prop where
  timerPlaced : p.Placed (p.address .timerIrq) timerIrq
  serialPlaced : p.Placed (p.address .serialIrq) serialIrq
  defaultPlaced : p.Placed (p.address (.entry .defaulthandler)) i386Defaulthandler
  /-- `_read_serial_input` is empty -/
  readSerialInput : ∃ effect, p.Performs .readSerialInput effect ∧
    ∀ stack w, (effect stack w).2 = w
  /-- `puts` on the default handler's message -/
  puts : ∃ effect, p.Performs .puts effect ∧
    ∀ stack w, stack.head? = some (p.address (.message .defaulthandler)) →
      (effect stack w).2 = { w with
        console := w.console.write (lineText (Handler.message .defaulthandler)) }
  /-- a request makes no difference to the C routines -/
  blind : ∀ s g, p.routine s = some g → ∀ stack w irq,
    g stack { w with pic := w.pic.request irq } =
      (g stack w).map fun r => { r with world := { r.world with pic := r.world.pic.request irq } }
  /-- they do not set the interrupt flag -/
  flag : ∀ s g, p.routine s = some g → ∀ stack w r, g stack w = some r →
    r.eflags.getLsbD 9 = false
  output : ∀ port b w, p.output port b w = { w with pic := w.pic.outportb port.toNat b }

/-! ## The machine -/

namespace Assembly.State

/-- A line asks for an interrupt. -/
def request (m : State AsmSymbol Board) (irq : Fin 16) : State AsmSymbol Board :=
  m.onWorld fun b => { b with pic := b.pic.request irq }

/-- The processor takes an interrupt: the chips put it in service, and the handler is next. -/
def taken (cpu : Cpu) (m : State AsmSymbol Board) (i : Interrupt) : State AsmSymbol Board :=
  let gate := cpu.interrupts (m.data.world.pic.vector i)
  (m.onWorld fun b => { b with pic := b.pic.accept i }).interrupt none
    (gate.selector.setWidth 32) gate.offset

/-- All that an interrupt is to change. -/
def served (m : State AsmSymbol Board) : Interrupt → State AsmSymbol Board
  | .genuine irq => { m with data := { m.data with
      vars := if irq = 0 then
          Function.update m.data.vars .pitTickCount (m.data.vars .pitTickCount + 1)
        else m.data.vars
      world := { m.data.world with pic := m.data.world.pic.withdraw irq } } }
  | .spurious7 => m.onWorld fun b => { b with
      console := b.console.write (lineText (Handler.message .defaulthandler)) }
  | .spurious15 => m

end Assembly.State

/-- The machine, and whether a handler is under way. -/
structure Interruptible : Type where
  /-- a handler is under way -/
  handling : Bool
  /-- the processor and the board -/
  state : State AsmSymbol Board

deriving instance DecidableEq for Interrupt

/-- What happens. -/
inductive MachineEvent : Type where
  /-- the kernel's own code goes on -/
  | program
  /-- a line asks for an interrupt -/
  | request (irq : Fin 16)
  /-- the processor takes an interrupt -/
  | interrupt (i : Interrupt)
  /-- a line of a handler -/
  | handler
deriving DecidableEq

/-- A step of the machine. -/
inductive Happens (p : Program AsmSymbol Board) (cpu : Cpu)
    (program : State AsmSymbol Board → State AsmSymbol Board → Prop) :
    Interruptible → MachineEvent → Interruptible → Prop where
  | program {m m' : State AsmSymbol Board} : program m m' →
    Happens p cpu program ⟨false, m⟩ .program ⟨false, m'⟩
  | request (c : Interruptible) (irq : Fin 16) :
    Happens p cpu program c (.request irq) ⟨c.handling, c.state.request irq⟩
  | interrupt {c : Interruptible} {i : Interrupt} : c.state.data.interruptFlag = true →
    c.state.data.world.pic.Delivers i →
    Happens p cpu program c (.interrupt i) ⟨true, c.state.taken cpu i⟩
  | handler {m m' : State AsmSymbol Board} {line : Line AsmSymbol} {next : BitVec 32} :
    p.text m.pc = some (line, next) → line.exec p m next = some m' →
    Happens p cpu program ⟨true, m⟩ .handler ⟨!line.isReturn, m'⟩

/-- A step of the machine that serves an interrupt at once. -/
inductive HappensAtOnce (program : State AsmSymbol Board → State AsmSymbol Board → Prop) :
    State AsmSymbol Board → MachineEvent → State AsmSymbol Board → Prop where
  | program {m m' : State AsmSymbol Board} : program m m' → HappensAtOnce program m .program m'
  | request (m : State AsmSymbol Board) (irq : Fin 16) :
    HappensAtOnce program m (.request irq) (m.request irq)
  | interrupt {m : State AsmSymbol Board} {i : Interrupt} : m.data.interruptFlag = true →
    m.data.world.pic.Delivers i → HappensAtOnce program m (.interrupt i) (m.served i)

/-- The processor and the controllers behind `cpu_driver_init`, `pit_8254_initialize` and
`serial_init`. -/
def installedCpu (p : Program AsmSymbol Board) (interrupts : BitVec 32) (pic : Pic8259a) : Cpu :=
  [⟨0, p.address .timerIrq⟩, ⟨4, p.address .serialIrq⟩].foldl cpuInstallDevice
    (cpuDriverInit (asmSymbols p interrupts) (.start pic))

/-- The last thing that happened on the line was a request. -/
def waiting (events : List MachineEvent) (irq : Fin 16) : Bool :=
  events.reverse.find? (fun e => e = .request irq ∨ e = .interrupt (.genuine irq)) =
    some (.request irq)

/-! ## The controllers -/

namespace Pic8259a

variable {pic : Pic8259a} {irq : Fin 16}

namespace Quiet

theorem request (h : pic.Quiet) (irq : Fin 16) : (pic.request irq).Quiet := by
  obtain ⟨hmaster, hslave, himr, himr', hoffset⟩ := h
  rw [Pic8259a.request]
  split <;> constructor <;> assumption

theorem withdraw (h : pic.Quiet) (irq : Fin 16) : (pic.withdraw irq).Quiet :=
  ⟨h.masterIsr, h.slaveIsr, h.masterImr, h.slaveImr, h.masterOffset⟩

theorem master_free (h : pic.Quiet) (n : ℕ) : pic.master.Free n := by
  intro k _
  simp [h.masterIsr]

/-- The open lines. -/
theorem deliverable_iff (h : pic.Quiet) : pic.deliverable irq = true ↔ irq = 0 ∨ irq = 4 := by
  have hall : ∀ irq : Fin 16, (if irq.val < 8 then !(0xee : BitVec 8).getLsbD irq
      else !(0xff : BitVec 8).getLsbD (irq - 8) && !(0xee : BitVec 8).getLsbD 2) = true ↔
        irq = 0 ∨ irq = 4 := by
    decide
  rw [← hall, deliverable]
  by_cases hlow : irq.val < 8 <;> simp [maskBit, hlow, h.masterImr, h.slaveImr]

/-- What the processor is asked to take. -/
theorem delivers_cases (h : pic.Quiet) {i : Interrupt} (hi : pic.Delivers i) :
    i = .genuine 0 ∨ i = .genuine 4 ∨ i = .spurious7 := by
  cases i with
  | genuine irq => simpa using h.deliverable_iff.mp hi.2.1
  | spurious7 => simp
  | spurious15 =>
    obtain ⟨hmask, -⟩ := hi
    simp [maskBit, h.masterImr] at hmask

/-- A request on an open line is not kept waiting. -/
theorem delivers (h : pic.Quiet) (hirq : irq = 0 ∨ irq = 4)
    (hrequested : pic.requested irq = true) :
    pic.Delivers (.genuine irq) := by
  refine ⟨hrequested, h.deliverable_iff.mpr hirq, ?_⟩
  have hlow : irq.val < 8 := by
    rcases hirq with rfl | rfl <;> decide
  rw [Accepts, if_pos hlow]
  exact h.master_free _

/-- The end of interrupt ends the line that is in service. -/
theorem eoi_accept (h : pic.Quiet) (hirq : irq.val < 8) :
    (pic.accept (.genuine irq)).outportb 0x20 0x20 = pic.withdraw irq := by
  rw [(outportb_eoi _).1, accept, if_pos hirq, eoiMaster, Pic8259a.withdraw, Chip.accept]
  simp only [clearHighest_or hirq (h.master_free irq)]

theorem vector_eq (h : pic.Quiet) : pic.vector (.genuine 0) = 0x20 ∧
    pic.vector (.genuine 4) = 0x24 ∧ pic.vector .spurious7 = 0x27 := by
  simp only [vector, Interrupt.line, h.masterOffset]
  exact ⟨rfl, rfl, rfl⟩

end Quiet

theorem requested_request (pic : Pic8259a) (irq irq' : Fin 16) :
    (pic.request irq).requested irq' = (decide (irq = irq') || pic.requested irq') := by
  by_cases heq : irq = irq'
  · subst heq
    by_cases hlow : irq.val < 8
    · simp [request, requested, hlow]
    · simp [request, requested, hlow, show irq.val - 8 < 8 by omega]
  · have hval : irq'.val ≠ irq.val := fun h => heq (Fin.ext h.symm)
    by_cases hlow : irq.val < 8 <;> by_cases hlow' : irq'.val < 8
    · simp [request, requested, hlow, hlow', heq, hval]
    · simp [request, requested, hlow, hlow', heq]
    · simp [request, requested, hlow, hlow', heq]
    · have hslave : irq.val - 8 ≠ irq'.val - 8 := by omega
      simp [request, requested, hlow, hlow', heq, hslave]

theorem requested_withdraw (hirq : irq.val < 8) (irq' : Fin 16) :
    (pic.withdraw irq).requested irq' = (!decide (irq = irq') && pic.requested irq') := by
  by_cases heq : irq = irq'
  · subst heq
    simp [withdraw, requested, hirq]
  · have hval : irq'.val ≠ irq.val := fun h => heq (Fin.ext h.symm)
    by_cases hlow' : irq'.val < 8
    · simp [withdraw, requested, hlow', heq, hval]
    · simp [withdraw, requested, hlow', heq]

end Pic8259a

/-! ## The handlers -/

/-- A write of the end of interrupt, or of another command that initialises nothing. -/
def isCommand (port : BitVec 16) (b : BitVec 8) : Bool := port = 0x20 && !b.getLsbD 4

/-- The controllers take a command before or after a request. -/
theorem outportb_request {port : BitVec 16} {b : BitVec 8} (h : isCommand port b = true)
    (pic : Pic8259a) (irq : Fin 16) :
    (pic.request irq).outportb port.toNat b = (pic.outportb port.toNat b).request irq := by
  simp only [isCommand, Bool.and_eq_true, decide_eq_true_eq, Bool.not_eq_true'] at h
  obtain ⟨rfl, hb⟩ := h
  have hcommand : ∀ chip : Chip, ∀ r : BitVec 8,
      Chip.writeCommand { chip with irr := r } b = { chip.writeCommand b with irr := r } ∧
        (chip.writeCommand b).irr = chip.irr := by
    intro chip r
    simp only [Chip.writeCommand, hb, Bool.false_eq_true, if_false]
    split
    · split <;> exact ⟨rfl, rfl⟩
    · split <;> exact ⟨rfl, rfl⟩
  change Pic8259a.outportb _ 0x20 b = _
  rw [Pic8259a.outportb, if_pos rfl, show (0x20 : BitVec 16).toNat = 0x20 from rfl,
    Pic8259a.outportb, if_pos rfl, Pic8259a.request, Pic8259a.request]
  by_cases hlow : irq.val < 8
  · simp only [if_pos hlow]
    rw [(hcommand pic.master _).1, (hcommand pic.master 0).2]
  · simp only [if_neg hlow]

namespace InterruptMachine

variable {p : Program AsmSymbol Board} {m : State AsmSymbol Board} {cpu : Cpu}

theorem unseen (h : InterruptMachine p) (irq : Fin 16) :
    p.Unseen isCommand fun b => { b with pic := b.pic.request irq } := by
  refine ⟨fun s g hs stack w => h.blind s g hs stack w irq, fun port b w hb => ?_⟩
  rw [h.output, h.output, outportb_request hb]

/-- The end of the two handlers of devices: the end of interrupt, and the return. -/
theorem straight_end (h : InterruptMachine p) {d : Data AsmSymbol Board} {irq : Fin 16}
    {esp : BitVec 32} (hquiet : m.data.world.pic.Quiet) (hirq : irq.val < 8)
    (hstack : d.stack = savedRegs m.data.regs esp ++
      m.pc :: m.data.cs :: m.data.eflags :: m.data.stack) (hcr2 : d.cr2 = m.data.cr2)
    (hvars : d.vars = (m.served (.genuine irq)).data.vars)
    (hworld : d.world = { m.data.world with pic := m.data.world.pic.accept (.genuine irq) }) :
    p.straight isCommand [.op (.movAl 0x20), .op (.outAl 0x20), .op .popad, .iretd] d =
      some (m.served (.genuine irq)) := by
  have hharmless : (Instr.outAl 0x20 : Instr AsmSymbol).isHarmless isCommand (d.setAl 0x20) =
      true := by
    simp [Instr.isHarmless, isCommand]
  have houtput : p.output 0x20 0x20 d.world =
      { m.data.world with pic := m.data.world.pic.withdraw irq } := by
    rw [h.output, hworld]
    exact congrArg (fun pic => { m.data.world with pic := pic }) (hquiet.eoi_accept hirq)
  have hout : (Instr.outAl 0x20).apply p (d.setAl 0x20) = some { d.setAl 0x20 with
      world := { m.data.world with pic := m.data.world.pic.withdraw irq } } := by
    rw [← houtput, Instr.apply, Data.al_setAl]
    rfl
  rw [Program.straight_op rfl rfl, Program.straight_op hharmless hout]
  refine Eq.trans (Program.straight_return hstack) ?_
  simp only [Data.setAl, Data.setReg, hcr2, hvars]
  rfl

/-- The timer's handler. -/
theorem straight_timerIrq (h : InterruptMachine p) (hquiet : m.data.world.pic.Quiet) :
    p.straight isCommand timerIrq (m.taken cpu (.genuine 0)).data =
      some (m.served (.genuine 0)) := by
  rw [timerIrq, Program.straight_op rfl rfl, Program.straight_op rfl rfl]
  exact h.straight_end hquiet (by decide) rfl rfl rfl rfl

/-- The serial port's handler. -/
theorem straight_serialIrq (h : InterruptMachine p) (hquiet : m.data.world.pic.Quiet) :
    p.straight isCommand serialIrq (m.taken cpu (.genuine 4)).data =
      some (m.served (.genuine 4)) := by
  obtain ⟨effect, hperforms, hworld⟩ := h.readSerialInput
  rw [serialIrq, Program.straight_op rfl rfl]
  obtain ⟨regs, eflags, hcall⟩ := Program.straight_call hperforms
  rw [hcall, hworld]
  exact h.straight_end hquiet (by decide) rfl rfl rfl rfl

/-- The default handler. -/
theorem straight_defaulthandler (h : InterruptMachine p) :
    p.straight isCommand i386Defaulthandler (m.taken cpu .spurious7).data =
      some (m.served .spurious7) := by
  obtain ⟨effect, hperforms, hworld⟩ := h.puts
  rw [i386Defaulthandler, Program.straight_op rfl rfl, Program.straight_op rfl rfl]
  obtain ⟨regs, eflags, hcall⟩ := Program.straight_call hperforms
  rw [hcall, hworld _ _ rfl]
  refine Eq.trans (Program.straight_op rfl
    (Instr.apply_addEsp [p.address (.message .defaulthandler)] rfl rfl)) ?_
  exact Program.straight_return rfl

/-- Whatever the processor is asked to take, a handler serves it. -/
theorem straight_handler (h : InterruptMachine p) (hquiet : m.data.world.pic.Quiet)
    {interrupts : BitVec 32} {pic : Pic8259a} {i : Interrupt}
    (hi : m.data.world.pic.Delivers i) :
    ∃ code, p.Placed (m.taken (installedCpu p interrupts pic) i).pc code ∧ code.length ≤ 6 ∧
      p.straight isCommand code (m.taken (installedCpu p interrupts pic) i).data =
        some (m.served i) := by
  have hfits : ∀ call ∈ ([⟨0, p.address .timerIrq⟩, ⟨4, p.address .serialIrq⟩] :
      List InstallCall), call.Fits := by
    simp [InstallCall.Fits]
  have hgates := gates_installed (asmSymbols p interrupts) (.start pic) hfits
  obtain ⟨htimer, hserial, hspurious⟩ := hquiet.vector_eq
  -- the routine behind a vector is the one installed last
  have hpc : ∀ v < 256, m.data.world.pic.vector i = v →
      (m.taken (installedCpu p interrupts pic) i).pc = lastInstalled (asmSymbols p interrupts)
        (installsOf (asmSymbols p interrupts)
          [⟨0, p.address .timerIrq⟩, ⟨4, p.address .serialIrq⟩]) v := by
    rintro v hv rfl
    exact (hgates _ hv).offset
  rcases hquiet.delivers_cases hi with rfl | rfl | rfl
  · refine ⟨timerIrq, ?_, by decide, h.straight_timerIrq hquiet⟩
    rw [hpc 0x20 (by decide) htimer]
    exact h.timerPlaced
  · refine ⟨serialIrq, ?_, by decide, h.straight_serialIrq hquiet⟩
    rw [hpc 0x24 (by decide) hserial]
    exact h.serialPlaced
  · refine ⟨i386Defaulthandler, ?_, by decide, h.straight_defaulthandler⟩
    rw [hpc 0x27 (by decide) hspurious]
    exact h.defaultPlaced

end InterruptMachine

/-! ## The simulation -/

/-- The machine is where the one without handlers is, or a handler leads there. -/
structure Leading (p : Program AsmSymbol Board) (c : Interruptible) (a : State AsmSymbol Board) :
    Prop where
  /-- nothing is in service there -/
  quiet : a.data.world.pic.Quiet
  /-- outside of handlers -/
  idle : c.handling = false → c.state = a
  /-- in one of them -/
  busy : c.handling = true → c.state.data.interruptFlag = false ∧
    ∃ code, p.Placed c.state.pc code ∧ code.length ≤ 6 ∧
      p.straight isCommand code c.state.data = some a

/-- What the machine without handlers sees of an event. -/
def MachineEvent.atOnce : MachineEvent → Option MachineEvent
  | .handler => none
  | e => some e

theorem quiet_installedCpu (p : Program AsmSymbol Board) (interrupts : BitVec 32)
    (pic : Pic8259a) : (installedCpu p interrupts pic).pic.Quiet ∧
      ∀ irq, (installedCpu p interrupts pic).pic.requested irq = false := by
  let cpu := cpuDriverInit (asmSymbols p interrupts) (.start pic)
  obtain ⟨hpic, hapic⟩ := Cpu.pic_cpuDriverInit (asmSymbols p interrupts) (.start pic)
  obtain ⟨hpic₀, hapic₀⟩ := Cpu.pic_cpuInstallDevice hapic ⟨0, p.address .timerIrq⟩
  obtain ⟨hpic₄, -⟩ := Cpu.pic_cpuInstallDevice hapic₀ ⟨4, p.address .serialIrq⟩
  rw [hpic₀, hpic, Pic8259a.initialize_eq] at hpic₄
  have hinstalled : (installedCpu p interrupts pic).pic = _ := hpic₄
  simp [pic8259aUnmaskIrq, pic8259aDisable, irqPort, irqBit, Pic8259a.outportb,
    Pic8259a.inportb, Chip.writeData] at hinstalled
  rw [hinstalled]
  refine ⟨⟨rfl, rfl, rfl, rfl, rfl⟩, fun irq => ?_⟩
  rw [Pic8259a.requested]
  split
  · exact BitVec.getLsbD_zero
  · exact BitVec.getLsbD_zero

section

variable {p : Program AsmSymbol Board} {interrupts : BitVec 32} {pic : Pic8259a}
  {program : State AsmSymbol Board → State AsmSymbol Board → Prop} {c c' : Interruptible}
  {a : State AsmSymbol Board} {e : MachineEvent}

/-- One step of the machine is one of the other, or none. -/
theorem Leading.step (h : InterruptMachine p)
    (hprogram : ∀ m m', program m m' → m'.data.world.pic = m.data.world.pic)
    (hlead : Leading p c a)
    (hstep : Happens p (installedCpu p interrupts pic) program c e c') :
    ∃ a', Leading p c' a' ∧ StepOrStay (HappensAtOnce program) e.atOnce a a' := by
  cases hstep with
  | @program m m' hm =>
    obtain rfl := hlead.idle rfl
    refine ⟨m', ⟨?_, fun _ => rfl, fun hbusy => ?_⟩, .program hm⟩
    · rw [hprogram m m' hm]
      exact hlead.quiet
    · cases hbusy
  | request _ irq =>
    refine ⟨a.request irq, ⟨hlead.quiet.request irq, fun hidle => ?_, fun hbusy => ?_⟩,
      .request a irq⟩
    · exact congrArg (·.request irq) (hlead.idle hidle)
    · obtain ⟨hflag, code, hplaced, hlength, hcode⟩ := hlead.busy hbusy
      refine ⟨hflag, code, hplaced, hlength, ?_⟩
      have hcommutes := Program.straight_onWorld (h.unseen irq) code c.state.data
      rw [hcode] at hcommutes
      exact hcommutes
  | @interrupt _ i hflag hdelivers =>
    have hidle : c.handling = false := by
      by_contra hhandling
      have hoff := (hlead.busy (Bool.not_eq_false _ ▸ hhandling)).1
      rw [hflag] at hoff
      cases hoff
    obtain rfl := hlead.idle hidle
    refine ⟨c.state.served i, ⟨?_, fun hidle => ?_, fun _ => ⟨?_, ?_⟩⟩,
      .interrupt hflag hdelivers⟩
    · cases i with
      | genuine irq => exact hlead.quiet.withdraw irq
      | spurious7 | spurious15 => exact hlead.quiet
    · cases hidle
    · -- an interrupt gate clears the flag
      simp [State.taken, State.interrupt, Data.interruptFlag]
    · exact h.straight_handler hlead.quiet hdelivers
  | handler htext hexec =>
    obtain ⟨hflag, code, hplaced, hlength, hcode⟩ := hlead.busy rfl
    obtain ⟨line, next, rest, m', rfl, htext', hexec', hnext⟩ :=
      Program.straight_step h.flag hplaced hcode hflag
    obtain ⟨rfl, rfl⟩ : _ ∧ _ := by
      simpa using htext.symm.trans htext'
    obtain rfl := Option.some.inj (hexec.symm.trans hexec')
    rcases hnext with ⟨hreturn, rfl⟩ | ⟨hreturn, hplaced', hcode', hflag'⟩
    · refine ⟨_, ⟨hlead.quiet, fun _ => rfl, fun hbusy => ?_⟩, rfl⟩
      rw [hreturn] at hbusy
      cases hbusy
    · refine ⟨a, ⟨hlead.quiet, fun hidle => ?_, fun _ => ⟨hflag', rest, hplaced', ?_, hcode'⟩⟩, rfl⟩
      · rw [hreturn] at hidle
        cases hidle
      · rw [List.length_cons] at hlength
        omega

/-- A handler comes to its end. -/
theorem Leading.finishes (h : InterruptMachine p) (cpu : Cpu) (hlead : Leading p c a)
    (hbusy : c.handling = true) :
    ∃ n ≤ 6, Traces (Happens p cpu program) c (List.replicate n .handler) ⟨false, a⟩ := by
  obtain ⟨handling, m⟩ := c
  obtain rfl : handling = true := hbusy
  obtain ⟨hflag, code, hplaced, hlength, hcode⟩ := hlead.busy rfl
  suffices hruns : ∃ n ≤ code.length, Traces (Happens p cpu program) ⟨true, m⟩
      (List.replicate n .handler) ⟨false, a⟩ by
    obtain ⟨n, hn, hrun⟩ := hruns
    exact ⟨n, hn.trans hlength, hrun⟩
  clear hlength hlead
  induction code generalizing m with
  | nil => cases hcode
  | cons line rest ih =>
    obtain ⟨_, next, _, m', heq, htext, hexec, hnext⟩ :=
      Program.straight_step h.flag hplaced hcode hflag
    obtain ⟨rfl, rfl⟩ := List.cons.inj heq
    have hfirst : Happens p cpu program ⟨true, m⟩ .handler ⟨!line.isReturn, m'⟩ :=
      .handler htext hexec
    rcases hnext with ⟨hreturn, rfl⟩ | ⟨hreturn, hplaced', hcode', hflag'⟩
    · rw [hreturn] at hfirst
      exact ⟨1, by simp, .single hfirst⟩
    · rw [hreturn] at hfirst
      obtain ⟨n, hn, hrun⟩ := ih m' hflag' hplaced' hcode'
      refine ⟨n + 1, by simpa using hn, ?_⟩
      rw [List.replicate_succ]
      exact (Traces.single hfirst).append hrun

end

theorem waiting_append (events : List MachineEvent) (e : MachineEvent) (irq : Fin 16) :
    waiting (events ++ [e]) irq = if e = .request irq then true
      else if e = .interrupt (.genuine irq) then false else waiting events irq := by
  rw [waiting, find?_reverse_concat]
  by_cases hrequest : e = .request irq
  · simp [hrequest]
  · by_cases hinterrupt : e = .interrupt (.genuine irq)
    · simp [hinterrupt]
    · simp [hrequest, hinterrupt, waiting]

/-- What the machine without handlers keeps, given what happened. -/
structure KeptAtOnce (m₀ : State AsmSymbol Board) (seen : List MachineEvent)
    (a : State AsmSymbol Board) : Prop where
  /-- nothing is in service -/
  quiet : a.data.world.pic.Quiet
  /-- the ticks -/
  ticks : a.data.vars .pitTickCount = m₀.data.vars .pitTickCount +
    BitVec.ofNat 32 (seen.count (.interrupt (.genuine 0)))
  /-- the interrupts -/
  served : ∀ i, .interrupt i ∈ seen → i = .genuine 0 ∨ i = .genuine 4 ∨ i = .spurious7
  /-- the requests -/
  waiting : ∀ irq, a.data.world.pic.requested irq = MissyKernel.waiting seen irq

namespace KeptAtOnce

variable {m₀ a a' : State AsmSymbol Board} {seen : List MachineEvent} {e : MachineEvent}

/-- An event that is no interrupt. -/
theorem of_same (h : KeptAtOnce m₀ seen a) (he : ∀ i, e ≠ .interrupt i)
    (hquiet : a'.data.world.pic.Quiet)
    (hticks : a'.data.vars .pitTickCount = a.data.vars .pitTickCount)
    (hwaiting : ∀ irq, a'.data.world.pic.requested irq = MissyKernel.waiting (seen ++ [e]) irq) :
    KeptAtOnce m₀ (seen ++ [e]) a' := by
  refine ⟨hquiet, ?_, fun i hi => ?_, hwaiting⟩
  · simp [hticks, h.ticks, List.count_append, he]
  · rcases List.mem_append.mp hi with hmem | hmem
    · exact h.served i hmem
    · exact absurd (List.mem_singleton.mp hmem).symm (he i)

theorem step {program : State AsmSymbol Board → State AsmSymbol Board → Prop}
    (hprogram : ∀ m m', program m m' → m'.data.world.pic = m.data.world.pic ∧
      m'.data.vars .pitTickCount = m.data.vars .pitTickCount)
    (h : KeptAtOnce m₀ seen a) (hstep : HappensAtOnce program a e a') :
    KeptAtOnce m₀ (seen ++ [e]) a' := by
  cases hstep with
  | program hm =>
    obtain ⟨hpic, hticks⟩ := hprogram _ _ hm
    refine h.of_same (by simp) (hpic ▸ h.quiet) hticks fun irq => ?_
    rw [hpic, h.waiting, waiting_append]
    simp
  | request irq =>
    refine h.of_same (by simp) (h.quiet.request irq) rfl fun irq' => ?_
    have hrequested := a.data.world.pic.requested_request irq irq'
    rw [h.waiting] at hrequested
    rw [waiting_append]
    refine hrequested.trans ?_
    by_cases heq : irq = irq' <;> simp [heq]
  | @interrupt i _ hdelivers =>
    have hi := h.quiet.delivers_cases hdelivers
    refine ⟨?_, ?_, fun i' hi' => ?_, fun irq' => ?_⟩
    · cases i with
      | genuine irq => exact h.quiet.withdraw irq
      | spurious7 | spurious15 => exact h.quiet
    · rw [List.count_append, BitVec.ofNat_add, ← BitVec.add_assoc, ← h.ticks]
      rcases hi with rfl | rfl | rfl
      · simp [State.served]
      · simp [State.served]
      · simp [State.served, State.onWorld, Data.onWorld]
    · rcases List.mem_append.mp hi' with hmem | hmem
      · exact h.served i' hmem
      · obtain rfl : i' = i := by simpa using hmem
        exact hi
    · rw [waiting_append]
      rcases hi with rfl | rfl | rfl
      · refine (Pic8259a.requested_withdraw (by decide) irq').trans ?_
        rw [h.waiting]
        by_cases heq : 0 = irq' <;> simp [heq]
      · refine (Pic8259a.requested_withdraw (by decide) irq').trans ?_
        rw [h.waiting]
        by_cases heq : 4 = irq' <;> simp [heq]
      · refine (h.waiting irq').trans ?_
        simp

end KeptAtOnce

/-- **Interrupts happen at once.** Whatever the kernel's own code does, but for writing to the
controllers and the tick count, and whenever requests come: every state outside of handlers is one
that a machine without handlers comes to, and every handler ends there within six lines. The tick
count is the number of the timer's interrupts. Only the timer's, the serial port's and spurious
interrupts come, and the chips have one of the first two ready for the processor exactly if its
line asked for it since it was served.

By simulation, with a handler under way as the state where the second machine has served it
already. Handlers run with interrupts off and end with the one command that takes their line out of
service, so at most one is ever open. -/
theorem interrupts_at_once (p : Program AsmSymbol Board) (h : InterruptMachine p)
    (interrupts : BitVec 32) (pic : Pic8259a)
    (program : State AsmSymbol Board → State AsmSymbol Board → Prop)
    (hprogram : ∀ m m', program m m' → m'.data.world.pic = m.data.world.pic ∧
      m'.data.vars .pitTickCount = m.data.vars .pitTickCount)
    (m₀ : State AsmSymbol Board)
    (hm₀ : m₀.data.world.pic = (installedCpu p interrupts pic).pic)
    (events : List MachineEvent) (c : Interruptible)
    (hrun : Traces (Happens p (installedCpu p interrupts pic) program) ⟨false, m₀⟩ events c) :
    let seen := events.filterMap MachineEvent.atOnce
    ∃ a, Traces (HappensAtOnce program) m₀ seen a ∧
      (c.handling = false → c.state = a) ∧
      (c.handling = true → ∃ n ≤ 6, Traces (Happens p (installedCpu p interrupts pic) program) c
        (List.replicate n .handler) ⟨false, a⟩) ∧
      a.data.vars .pitTickCount = m₀.data.vars .pitTickCount +
        BitVec.ofNat 32 (seen.count (.interrupt (.genuine 0))) ∧
      (∀ i, .interrupt i ∈ seen → i = .genuine 0 ∨ i = .genuine 4 ∨ i = .spurious7) ∧
      ∀ irq, irq = 0 ∨ irq = 4 →
        (a.data.world.pic.Delivers (.genuine irq) ↔ waiting seen irq = true) := by
  intro seen
  obtain ⟨hquiet, hrequested⟩ := quiet_installedCpu p interrupts pic
  rw [← hm₀] at hquiet hrequested
  have hinit : Leading p ⟨false, m₀⟩ m₀ := ⟨hquiet, fun _ => rfl, fun hbusy => by cases hbusy⟩
  obtain ⟨a, hlead, hatOnce⟩ :
      ∃ a, Leading p c a ∧ Traces (HappensAtOnce program) m₀ seen a :=
    hrun.simulation
      (fun hlead hstep => hlead.step h (fun m m' hm => (hprogram m m' hm).1) hstep) hinit
  have hkept : KeptAtOnce m₀ seen a :=
    hatOnce.invariant (KeptAtOnce m₀) ⟨hquiet, by simp, by simp, hrequested⟩ fun hkept hstep =>
      hkept.step hprogram hstep
  refine ⟨a, hatOnce, hlead.idle, hlead.finishes h _, hkept.ticks, hkept.served,
    fun irq hirq => ?_⟩
  rw [← hkept.waiting]
  exact ⟨fun hdelivers => hdelivers.1, hkept.quiet.delivers hirq⟩

/-- The three handlers one behind the other. -/
def interruptImage : List (Line AsmSymbol) :=
  (.label .timerIrq :: timerIrq) ++ ((.label .serialIrq :: serialIrq) ++
    (.label (.entry .defaulthandler) :: i386Defaulthandler))

/-- C routines for them. -/
def boardMachine : Program AsmSymbol Board where
  address := fun _ => 0
  text := fun _ => none
  routine := fun
    | .readSerialInput => some fun _ w => some ⟨fun _ => 0, 0, w⟩
    | .puts => some fun _ w => some ⟨fun _ => 0, 0, { w with
        console := w.console.write (lineText (Handler.message .defaulthandler)) }⟩
    | _ => none
  input := fun port w => (w.pic.inportb port.toNat, w)
  output := fun port b w => { w with pic := w.pic.outportb port.toNat b }
  stackEnd := 0x1000

theorem interruptMachine_boardMachine : InterruptMachine (link interruptImage boardMachine) := by
  have hlabels : (interruptImage.filterMap Line.symbol?).Nodup := by decide
  have hplaced : ∀ s code pre post, interruptImage = pre ++ (.label s :: code) ++ post →
      (link interruptImage boardMachine).Placed
        ((link interruptImage boardMachine).address s) code := by
    intro s code pre post himage
    obtain ⟨haddress, hplaced⟩ := placed_link himage hlabels (by decide)
    exact haddress ▸ hplaced
  refine ⟨hplaced .timerIrq timerIrq [] _ rfl,
    hplaced .serialIrq serialIrq (.label .timerIrq :: timerIrq) _ rfl,
    hplaced (.entry .defaulthandler) i386Defaulthandler
      (.label .timerIrq :: timerIrq ++ .label .serialIrq :: serialIrq) [] rfl,
    ⟨fun _ w => (0, w), ⟨_, rfl, fun _ _ => ⟨_, rfl, rfl, rfl⟩⟩, fun _ _ => rfl⟩,
    ⟨fun _ w => (0, _), ⟨_, rfl, fun _ _ => ⟨_, rfl, rfl, rfl⟩⟩, fun _ _ _ => rfl⟩,
    fun s g hg => ?_, fun s g hg => ?_, fun _ _ _ => rfl⟩
  · change boardMachine.routine s = some g at hg
    unfold boardMachine at hg
    dsimp only at hg
    split at hg
    · cases hg
      exact fun _ _ _ => rfl
    · cases hg
      exact fun _ _ _ => rfl
    · cases hg
  · change boardMachine.routine s = some g at hg
    unfold boardMachine at hg
    dsimp only at hg
    split at hg
    · cases hg
      rintro _ _ _ ⟨rfl⟩
      exact BitVec.getLsbD_zero
    · cases hg
      rintro _ _ _ ⟨rfl⟩
      exact BitVec.getLsbD_zero
    · cases hg

/-- The timer asks, and the processor takes the interrupt: the tick is counted. -/
theorem tick_counted :
    let p := link interruptImage boardMachine
    let cpu := installedCpu p 0 default
    let m₀ : State AsmSymbol Board :=
      ⟨0x1000, ⟨fun _ => 5, 0x202, 8, 0, [], fun _ => 0, cpu.pic, ⟨.start fun _ => 0, [], 0⟩⟩⟩
    ∃ a, ∃ n ≤ 6, Traces (Happens p cpu fun _ _ => False)
      ⟨true, (m₀.request 0).taken cpu (.genuine 0)⟩ (List.replicate n .handler) ⟨false, a⟩ ∧
        a.data.vars .pitTickCount = 1 := by
  intro p cpu m₀
  have hquiet : (m₀.request 0).data.world.pic.Quiet := (quiet_installedCpu p 0 default).1.request 0
  have hflag : (m₀.request 0).data.interruptFlag = true :=
    (by decide : (0x202 : BitVec 32).getLsbD 9 = true)
  have hdelivers : (m₀.request 0).data.world.pic.Delivers (.genuine 0) :=
    hquiet.delivers (.inl rfl) (by rw [State.request]; exact Pic8259a.requested_request _ 0 0)
  obtain ⟨a, -, -, hfinishes, hticks, -⟩ := interrupts_at_once p interruptMachine_boardMachine 0
    default (fun _ _ => False) (fun _ _ hfalse => hfalse.elim) m₀ rfl _
    ⟨true, (m₀.request 0).taken cpu (.genuine 0)⟩
    (.snoc (.snoc .nil (.request ⟨false, m₀⟩ 0)) (.interrupt hflag hdelivers))
  obtain ⟨n, hn, hrun⟩ := hfinishes rfl
  exact ⟨a, n, hn, hrun, hticks⟩

end MissyKernel
