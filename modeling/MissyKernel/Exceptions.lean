import MissyKernel.Assembly
import MissyKernel.Cpu

/-!
# The exception handlers (`i386_*.asm`)

Every exception has a handler in a file of its own, all but three of them on one of two
patterns: report and return, or clear the screen, report and stop. The non-maskable
interrupt reads the system ports, the general protection fault and the page fault take the
error code off the stack first.

A handler that returns brings back everything it found on the stack, whatever the C routines
it calls do to the registers. That is right when the processor pushed three words and no
fourth: the alignment check, which has an error code, returns to the code instead of the
address. The general protection fault means to stop, but the name on that line is a label;
it goes on with two words too many on the stack and returns into the interrupted registers.

The handlers are transcribed line by line from their files, each under its own name; the two
patterns are `reportAndReturn` and `reportAndStop`. `Linked` is what is asked of the program: the
code of every file lies where the linker put it, and the C routines return as C routines do. The
proofs go through the code with the rules of `Assembly`, without running it.
-/

namespace MissyKernel

open Assembly

/-- The files with a handler. -/
inductive Handler : Type where
  | defaulthandler
  | divbyzero
  | debugtrap
  | nmi
  | breakpoint
  | overflow
  | bounderror
  | badopcode
  | deviceerror
  | doublefault
  | invalidtss
  | segnotpresent
  | stacksegfault
  | genprotectfault
  | pagefault
  | fpuexception
  | aligncheck
  | machinecheck
  | simdexception
  | virtualizeexception
  | securityexception
deriving DecidableEq

/-- The symbols of the assembly files. -/
inductive AsmSymbol : Type where
  /-- `i386_` and the name of the handler -/
  | entry (h : Handler)
  /-- the message that the handler of the file begins with -/
  | message (h : Handler)
  /-- `int_ExceptionNumber` or `int_ErrorNumber` of the file -/
  | number (h : Handler)
  | i386ExceptionSetDisp
  | i386SystemStop
  | strSystemException
  | strSystemMustHalt1
  | strSystemMustHalt2
  | printf
  | puts
  | displayClear
  | displayChangeColor
  | strWatchdogTimer
  | strChannelError
  | strParityError
  | strUnknownError
  | watchdogTimer
  | checkSysportB
  | channelErr
  | parityErr
  | systemHalt
  | intGpfCode
  | strGPFOther
  | strGPFGDTError
  | strGPFIDTError
  | strGPFLDTError
  | strGPFErrorCodeStr
  | idtEntry
  | ldtEntry
  | otherError
  /-- `.finish` of the general protection fault -/
  | gpfFinish
  | i386StopSystem
  | intPfErrorCode
  | strPageNotPresentError
  | strPageProtectionError
  | strPageFaultOnRead
  | strPageFaultOnWrite
  | strPageFaultInUserMode
  | strPageFaultInKernelMode
  | strPageFaultOnReserved
  | strPageFaultInstruction
  | strPageFaultAddr
  | strPageFaultPage
  | pageProtectionError
  | pageRwBit
  | pageWrite
  | pageRingBit
  | pageRing3
  | pageReservedBit
  | instructionBit
  | finish
  | timerIrq
  | pitTickCount
  | serialIrq
  | readSerialInput
deriving DecidableEq

/-! ## The code -/

/-- `i386_exception_set_disp` -/
def i386ExceptionSetDisp : List (Line AsmSymbol) :=
  [.op (.push (.imm 0x4f)), .call .displayChangeColor, .op (.addEsp 4),
    .call .displayClear, .ret]

/-- `i386_system_stop` -/
def i386SystemStop : List (Line AsmSymbol) :=
  [.op (.push (.address .strSystemMustHalt1)), .call .puts, .op (.addEsp 4),
    .op (.push (.address .strSystemMustHalt2)), .call .puts, .op (.addEsp 4),
    .op .cli, .hang]

/-- The handlers that report and return. -/
def reportAndReturn (h : Handler) : List (Line AsmSymbol) :=
  [.op .pushad,
    .op (.push (.address (.message h))), .op (.push (.variable (.number h))),
    .op (.push (.address .strSystemException)), .call .printf, .op (.addEsp 12),
    .op .popad, .iretd]

/-- The handlers that clear the screen, report and stop. -/
def reportAndStop (h : Handler) (number : Operand AsmSymbol) (format : AsmSymbol) :
    List (Line AsmSymbol) :=
  [.op .pushad, .call .i386ExceptionSetDisp,
    .op (.push (.address (.message h))), .op (.push number), .op (.push (.address format)),
    .call .printf, .op (.addEsp 12),
    .call .i386SystemStop, .op .popad, .iretd]

/-- `i386_defaulthandler` -/
def i386Defaulthandler : List (Line AsmSymbol) :=
  [.op .pushad, .op (.push (.address (.message .defaulthandler))), .call .puts, .op (.addEsp 4),
    .op .popad, .iretd]

/-- `i386_divbyzero` -/
def i386Divbyzero : List (Line AsmSymbol) := reportAndReturn .divbyzero

/-- `i386_debugtrap` -/
def i386Debugtrap : List (Line AsmSymbol) := reportAndReturn .debugtrap

/-- `i386_breakpoint` -/
def i386Breakpoint : List (Line AsmSymbol) := reportAndReturn .breakpoint

/-- `i386_overflow` -/
def i386Overflow : List (Line AsmSymbol) :=
  reportAndStop .overflow (.variable (.number .overflow)) .strSystemException

/-- `i386_bounderror` -/
def i386Bounderror : List (Line AsmSymbol) := reportAndReturn .bounderror

/-- `i386_badopcode` -/
def i386Badopcode : List (Line AsmSymbol) :=
  reportAndStop .badopcode (.variable (.number .badopcode)) .strSystemException

/-- `i386_deviceerror`, which pushes the address of its number. -/
def i386Deviceerror : List (Line AsmSymbol) :=
  reportAndStop .deviceerror (.address (.number .deviceerror)) .strSystemException

/-- `i386_doublefault` -/
def i386Doublefault : List (Line AsmSymbol) :=
  reportAndStop .doublefault (.variable (.number .doublefault)) .strSystemException

/-- `i386_invalidtss` -/
def i386Invalidtss : List (Line AsmSymbol) :=
  reportAndStop .invalidtss (.variable (.number .invalidtss)) .strSystemException

/-- `i386_segnotpresent` -/
def i386Segnotpresent : List (Line AsmSymbol) :=
  reportAndStop .segnotpresent (.variable (.number .segnotpresent)) .strSystemException

/-- `i386_stacksegfault` -/
def i386Stacksegfault : List (Line AsmSymbol) :=
  reportAndStop .stacksegfault (.variable (.number .stacksegfault)) .strSystemException

/-- `i386_fpuexception` -/
def i386Fpuexception : List (Line AsmSymbol) := reportAndReturn .fpuexception

/-- `i386_aligncheck` -/
def i386Aligncheck : List (Line AsmSymbol) := reportAndReturn .aligncheck

/-- `i386_machinecheck` -/
def i386Machinecheck : List (Line AsmSymbol) :=
  reportAndStop .machinecheck (.variable (.number .machinecheck)) .strSystemException

/-- `i386_simdexception` -/
def i386Simdexception : List (Line AsmSymbol) :=
  reportAndStop .simdexception (.variable (.number .simdexception)) .strSystemException

/-- `i386_virtualizeexception` -/
def i386Virtualizeexception : List (Line AsmSymbol) := reportAndReturn .virtualizeexception

/-- `i386_securityexception`, whose format is its message. -/
def i386Securityexception : List (Line AsmSymbol) :=
  reportAndStop .securityexception (.variable (.number .securityexception))
    (.message .securityexception)

/-- `i386_nmi` -/
def i386Nmi : List (Line AsmSymbol) :=
  [.op .pushad, .call .i386ExceptionSetDisp,
    .op (.push (.address (.message .nmi))), .op (.push (.variable (.number .nmi))),
    .op (.push (.address .strSystemException)), .call .printf, .op (.addEsp 12),
    .op (.inAl 0x92), .op (.andAl 0x10), .jz .checkSysportB,
    .label .watchdogTimer,
    .op (.push (.address .strWatchdogTimer)), .call .puts, .op (.addEsp 4),
    .jmp .systemHalt,
    .label .checkSysportB,
    .op (.inAl 0x61), .op (.andAl 0x40), .jz .channelErr,
    .op (.andAl 0x80), .jz .parityErr,
    .op (.push (.address .strUnknownError)), .call .puts, .op (.addEsp 4),
    .jmp .systemHalt,
    .label .channelErr,
    .op (.push (.address .strChannelError)), .call .puts, .op (.addEsp 4),
    .jmp .systemHalt,
    .label .parityErr,
    .op (.push (.address .strParityError)), .call .puts, .op (.addEsp 4),
    .label .systemHalt,
    .call .i386SystemStop, .op .popad, .iretd]

/-- `i386_genprotectfault` -/
def i386Genprotectfault : List (Line AsmSymbol) :=
  [.op (.pop .intGpfCode), .op .pushad, .call .i386ExceptionSetDisp,
    .op (.push (.address (.message .genprotectfault))),
    .op (.push (.variable (.number .genprotectfault))),
    .op (.push (.address .strSystemException)), .call .printf, .op (.addEsp 12),
    -- the result of `printf` is tested here
    .op (.or .eax .eax), .jz .otherError,
    .op (.mov .eax (.variable .intGpfCode)), .op (.and .eax 0x02), .jnz .idtEntry,
    .op (.and .eax 0x04), .jnz .ldtEntry,
    .op (.push (.address .strGPFGDTError)), .call .puts, .op (.addEsp 4),
    .jmp .gpfFinish,
    .label .idtEntry,
    .op (.push (.address .strGPFIDTError)), .call .puts, .op (.addEsp 4),
    .jmp .gpfFinish,
    .label .ldtEntry,
    .op (.push (.address .strGPFLDTError)), .call .puts, .op (.addEsp 4),
    .jmp .gpfFinish,
    .label .otherError,
    .op (.push (.address .strGPFOther)), .call .puts, .op (.addEsp 4),
    .label .gpfFinish,
    .op (.push (.variable .intGpfCode)), .op (.push (.address .strGPFErrorCodeStr)),
    .call .printf,
    -- a name on a line of its own, and no call
    .label .i386StopSystem,
    .op .popad, .iretd]

/-- `i386_pagefault` -/
def i386Pagefault : List (Line AsmSymbol) :=
  [.op (.pop .intPfErrorCode), .op .pushad, .call .i386ExceptionSetDisp,
    .op (.push (.address (.message .pagefault))), .op (.push (.variable (.number .pagefault))),
    .op (.push (.address .strSystemException)), .call .printf, .op (.addEsp 12),
    .op (.mov .eax .faultAddress), .op (.push (.reg .eax)),
    .op (.push (.address .strPageFaultAddr)), .call .printf, .op (.addEsp 8),
    .op (.mov .eax .faultAddress), .op (.and .eax 0xfffff000), .op (.push (.reg .eax)),
    .op (.push (.address .strPageFaultPage)), .call .printf, .op (.addEsp 8),
    .op (.mov .eax (.variable .intPfErrorCode)), .op (.and .eax 0x01), .jnz .pageProtectionError,
    .op (.push (.address .strPageNotPresentError)), .call .puts, .op (.addEsp 4),
    .jmp .pageRwBit,
    .label .pageProtectionError,
    .op (.push (.address .strPageProtectionError)), .call .puts, .op (.addEsp 4),
    .label .pageRwBit,
    .op (.mov .eax (.variable .intPfErrorCode)), .op (.and .eax 0x02), .jnz .pageWrite,
    .op (.push (.address .strPageFaultOnRead)), .call .puts, .op (.addEsp 4),
    .jmp .pageRingBit,
    .label .pageWrite,
    .op (.push (.address .strPageFaultOnWrite)), .call .puts, .op (.addEsp 4),
    .label .pageRingBit,
    .op (.mov .eax (.variable .intPfErrorCode)), .op (.and .eax 0x04), .jnz .pageRing3,
    .op (.push (.address .strPageFaultInKernelMode)), .call .puts, .op (.addEsp 4),
    .jmp .pageReservedBit,
    .label .pageRing3,
    .op (.push (.address .strPageFaultInUserMode)), .call .puts, .op (.addEsp 4),
    .label .pageReservedBit,
    .op (.mov .eax (.variable .intPfErrorCode)), .op (.and .eax 0x08), .jz .instructionBit,
    .op (.push (.address .strPageFaultOnReserved)), .call .puts, .op (.addEsp 4),
    .label .instructionBit,
    .op (.mov .eax (.variable .intPfErrorCode)), .op (.and .eax 0x10), .jz .finish,
    .op (.push (.address .strPageFaultInstruction)), .call .puts, .op (.addEsp 4),
    .label .finish,
    .call .i386SystemStop, .op .popad, .iretd]

/-- The code of a handler. -/
def Handler.code : Handler → List (Line AsmSymbol)
  | .defaulthandler => i386Defaulthandler
  | .divbyzero => i386Divbyzero
  | .debugtrap => i386Debugtrap
  | .nmi => i386Nmi
  | .breakpoint => i386Breakpoint
  | .overflow => i386Overflow
  | .bounderror => i386Bounderror
  | .badopcode => i386Badopcode
  | .deviceerror => i386Deviceerror
  | .doublefault => i386Doublefault
  | .invalidtss => i386Invalidtss
  | .segnotpresent => i386Segnotpresent
  | .stacksegfault => i386Stacksegfault
  | .genprotectfault => i386Genprotectfault
  | .pagefault => i386Pagefault
  | .fpuexception => i386Fpuexception
  | .aligncheck => i386Aligncheck
  | .machinecheck => i386Machinecheck
  | .simdexception => i386Simdexception
  | .virtualizeexception => i386Virtualizeexception
  | .securityexception => i386Securityexception

/-- What the C routines do that the handlers call. -/
structure CRoutines (W : Type) : Type where
  /-- `printf`, given the stack -/
  printf : List (BitVec 32) → W → BitVec 32 × W
  /-- `puts`, given its argument -/
  puts : BitVec 32 → W → BitVec 32 × W
  /-- `display_change_color`, given its argument -/
  displayChangeColor : BitVec 32 → W → BitVec 32 × W
  /-- `display_clear` -/
  displayClear : W → BitVec 32 × W

/-- The handlers are linked with C routines that do this. -/
structure Linked {W : Type} (p : Program AsmSymbol W) (c : CRoutines W) : Prop where
  printf : p.Performs .printf c.printf
  puts : p.Performs .puts fun stack => c.puts (stack.headD 0)
  displayChangeColor :
    p.Performs .displayChangeColor fun stack => c.displayChangeColor (stack.headD 0)
  displayClear : p.Performs .displayClear fun _ => c.displayClear
  /-- the two routines of `i386_exception.asm` are assembly -/
  setDisp : p.routine .i386ExceptionSetDisp = none
  systemStop : p.routine .i386SystemStop = none
  /-- the code is in memory -/
  setDispPlaced : p.Placed (p.address .i386ExceptionSetDisp) MissyKernel.i386ExceptionSetDisp
  systemStopPlaced : p.Placed (p.address .i386SystemStop) MissyKernel.i386SystemStop
  handlerPlaced : ∀ h : Handler, p.Placed (p.address (.entry h)) h.code

variable {W : Type}

/-- `i386_exception_set_disp` on the rest of the system. -/
def CRoutines.setDisp (c : CRoutines W) (w : W) : W :=
  (c.displayClear (c.displayChangeColor 0x4f w).2).2

/-- `i386_system_stop` on the rest of the system. -/
def CRoutines.systemStop (c : CRoutines W) (p : Program AsmSymbol W) (w : W) : W :=
  (c.puts (p.address .strSystemMustHalt2) (c.puts (p.address .strSystemMustHalt1) w).2).2

/-- The report that a handler begins with, on the rest of the system. -/
def CRoutines.report (c : CRoutines W) (p : Program AsmSymbol W) (format : AsmSymbol)
    (number : BitVec 32) (h : Handler) (saved : List (BitVec 32)) (w : W) : W :=
  (c.printf (p.address format :: number :: p.address (.message h) :: saved) w).2

/-- The processor stands still for good. -/
structure Stopped (p : Program AsmSymbol W) (m : State AsmSymbol W) : Prop where
  /-- it jumps to where it is -/
  hung : p.Hung m
  /-- and takes no interrupt -/
  interrupts : m.data.interruptFlag = false

/-- What the handler of the non-maskable interrupt tells: the watchdog's bit comes first, then
the channel's, which means the opposite. -/
def CRoutines.nmi (c : CRoutines W) (p : Program AsmSymbol W) (w : W) : W :=
  let (status, w) := p.input 0x92 w
  if status &&& 0x10 = 0 then
    let (status, w) := p.input 0x61 w
    (c.puts (p.address (if status &&& 0x40 = 0 then .strChannelError else .strParityError)) w).2
  else (c.puts (p.address .strWatchdogTimer) w).2

/-- What the handler of the general protection fault tells behind its report, of which
`printf` printed so many characters. The bit of the `LDT` is looked for in what the test of
the `IDT`'s bit left. -/
def CRoutines.genprotectfault (c : CRoutines W) (p : Program AsmSymbol W)
    (printed code : BitVec 32) (saved : List (BitVec 32)) (w : W) : W :=
  (c.printf (p.address .strGPFErrorCodeStr :: code :: saved)
    (c.puts (p.address (if printed = 0 then .strGPFOther
      else if code &&& 0x02 = 0 then .strGPFGDTError else .strGPFIDTError)) w).2).2

/-- What the handler of the page fault tells behind its report: the address and its page, then
a line for each of three bits of the error code, and one for each of two if it is set. -/
def CRoutines.pagefault (c : CRoutines W) (p : Program AsmSymbol W) (address code : BitVec 32)
    (saved : List (BitVec 32)) (w : W) : W :=
  let w := (c.printf (p.address .strPageFaultAddr :: address :: saved) w).2
  let w := (c.printf (p.address .strPageFaultPage :: (address &&& 0xfffff000) :: saved) w).2
  let choose (bit : BitVec 32) (clear set : AsmSymbol) (w : W) : W :=
    (c.puts (p.address (if code &&& bit = 0 then clear else set)) w).2
  let w := choose 0x01 .strPageNotPresentError .strPageProtectionError w
  let w := choose 0x02 .strPageFaultOnRead .strPageFaultOnWrite w
  let w := choose 0x04 .strPageFaultInKernelMode .strPageFaultInUserMode w
  let w := if code &&& 0x08 = 0 then w else (c.puts (p.address .strPageFaultOnReserved) w).2
  if code &&& 0x10 = 0 then w else (c.puts (p.address .strPageFaultInstruction) w).2

/-! ## What the parts of a handler do -/

namespace Linked

variable {p : Program AsmSymbol W} {c : CRoutines W} {rest : List (Line AsmSymbol)}
  {d : Data AsmSymbol W} {post : State AsmSymbol W → Prop}

theorem leads_setDisp (h : Linked p c)
    (hrest : ∀ d', d.Keeps d' → d'.world = c.setDisp d.world → p.Leads rest d' post) :
    p.Leads (.call .i386ExceptionSetDisp :: rest) d post := by
  refine .call (fun d' => d.Keeps d' ∧ d'.world = c.setDisp d.world) h.setDisp
    h.setDispPlaced (fun ret => ?_) fun d' hd' => hrest d' hd'.1 hd'.2
  refine .push ?_
  refine .callPerforms h.displayChangeColor fun d₁ hkeeps₁ _ hworld₁ => ?_
  refine .addEsp [0x4f] rfl hkeeps₁.stack fun d₂ hkeeps₂ _ hworld₂ => ?_
  refine .callPerforms h.displayClear fun d₃ hkeeps₃ _ hworld₃ => ?_
  refine .ret (hkeeps₃.stack.trans hkeeps₂.stack) ⟨rfl, ⟨?_, ?_, rfl, ?_⟩, ?_⟩
  · exact hkeeps₃.cs.trans (hkeeps₂.cs.trans hkeeps₁.cs)
  · exact hkeeps₃.cr2.trans (hkeeps₂.cr2.trans hkeeps₁.cr2)
  · exact hkeeps₃.vars.trans (hkeeps₂.vars.trans hkeeps₁.vars)
  · exact hworld₃.trans (congrArg (fun w => (c.displayClear w).2) (hworld₂.trans hworld₁))

theorem leads_puts (h : Linked p c) (message : AsmSymbol)
    (hrest : ∀ d', d.Keeps d' → d'.world = (c.puts (p.address message) d.world).2 →
      p.Leads rest d' post) :
    p.Leads (.op (.push (.address message)) :: .call .puts :: .op (.addEsp 4) :: rest) d post := by
  refine .push ?_
  refine .callPerforms h.puts fun d₁ hkeeps₁ _ hworld₁ => ?_
  refine .addEsp [p.address message] rfl hkeeps₁.stack fun d₂ hkeeps₂ _ hworld₂ => ?_
  exact hrest d₂ ⟨hkeeps₂.cs.trans hkeeps₁.cs, hkeeps₂.cr2.trans hkeeps₁.cr2, hkeeps₂.stack,
    hkeeps₂.vars.trans hkeeps₁.vars⟩ (hworld₂.trans hworld₁)

/-- The processor stops behind the two lines of the farewell. -/
theorem leads_systemStop (h : Linked p c)
    (hpost : ∀ m, Stopped p m → m.data.world = c.systemStop p d.world → post m) :
    p.Leads (.call .i386SystemStop :: rest) d post := by
  refine .callLast h.systemStop h.systemStopPlaced fun ret => ?_
  refine h.leads_puts _ fun d₁ _ hworld₁ => ?_
  refine h.leads_puts _ fun d₂ _ hworld₂ => ?_
  refine .op rfl ?_
  refine .hang fun pc hung => hpost _ ⟨hung, ?_⟩ ?_
  · simp [Data.interruptFlag]
  · exact hworld₂.trans (by rw [hworld₁]; rfl)

/-- The report of a number and a message. -/
theorem leads_report (h : Linked p c) {handler : Handler} {number : Operand AsmSymbol}
    {n : BitVec 32} {format : AsmSymbol} (hnumber : number.value p d = n)
    (hrest : ∀ d', d.Keeps d' → d'.regs .eax = (c.printf (p.address format :: n ::
        p.address (.message handler) :: d.stack) d.world).1 →
      d'.world = c.report p format n handler d.stack d.world → p.Leads rest d' post) :
    p.Leads (.op (.push (.address (.message handler))) :: .op (.push number) ::
      .op (.push (.address format)) :: .call .printf :: .op (.addEsp 12) :: rest) d post := by
  refine .push (.push ?_)
  rw [Operand.value_push, hnumber]
  refine .push ?_
  refine .callPerforms h.printf fun d₁ hkeeps₁ heax hworld₁ => ?_
  refine .addEsp [p.address format, n, p.address (.message handler)] rfl hkeeps₁.stack
    fun d₂ hkeeps₂ hregs hworld₂ => ?_
  exact hrest d₂ ⟨hkeeps₂.cs.trans hkeeps₁.cs, hkeeps₂.cr2.trans hkeeps₁.cr2, hkeeps₂.stack,
    hkeeps₂.vars.trans hkeeps₁.vars⟩ (hregs ▸ heax) (hworld₂.trans hworld₁)

/-- The words that `pushad` saved and the processor pushed bring everything back. -/
theorem leads_return {d' : Data AsmSymbol W} {eip cs eflags : BitVec 32}
    {stack : List (BitVec 32)} (hstack : d.stack = eip :: cs :: eflags :: stack)
    (hkeeps : Data.Keeps { d with stack := savedRegs d.regs (p.esp d) ++ d.stack } d')
    (hpost : post ⟨eip, { d with
      cs := cs, eflags := eflags, stack := stack, world := d'.world }⟩) :
    p.Leads [.op .popad, .iretd] d' post := by
  obtain ⟨regs', eflags', cs', cr2', stack', vars', w⟩ := d'
  obtain ⟨rfl, rfl, rfl, rfl⟩ := hkeeps
  exact .popad rfl (.iretd hstack hpost)

theorem leads_reportAndReturn (h : Linked p c) (handler : Handler)
    {eip cs eflags : BitVec 32} {stack : List (BitVec 32)}
    (hstack : d.stack = eip :: cs :: eflags :: stack)
    (hpost : ∀ saved, post ⟨eip, { d with
      cs := cs
      eflags := eflags
      stack := stack
      world := c.report p .strSystemException (d.vars (.number handler)) handler saved d.world }⟩) :
    p.Leads (reportAndReturn handler) d post := by
  refine .op rfl ?_
  refine h.leads_report rfl fun d' hkeeps _ hworld => ?_
  refine leads_return hstack hkeeps ?_
  rw [hworld]
  exact hpost _

/-- The beginning of the handlers that stop. -/
theorem leads_beginning (h : Linked p c) {handler : Handler} {number : Operand AsmSymbol}
    {n : BitVec 32} {format : AsmSymbol}
    (hnumber : ∀ d' : Data AsmSymbol W, d'.vars = d.vars → number.value p d' = n)
    (hrest : ∀ d', Data.Keeps { d with stack := savedRegs d.regs (p.esp d) ++ d.stack } d' →
      d'.regs .eax = (c.printf (p.address format :: n :: p.address (.message handler) :: d'.stack)
        (c.setDisp d.world)).1 →
      d'.world = c.report p format n handler d'.stack (c.setDisp d.world) →
      p.Leads rest d' post) :
    p.Leads (.op .pushad :: .call .i386ExceptionSetDisp ::
      .op (.push (.address (.message handler))) :: .op (.push number) ::
      .op (.push (.address format)) :: .call .printf :: .op (.addEsp 12) :: rest) d post := by
  refine .op rfl ?_
  refine h.leads_setDisp fun d₁ hkeeps₁ hworld₁ => ?_
  refine h.leads_report (hnumber d₁ hkeeps₁.vars) fun d₂ hkeeps₂ heax hworld₂ => ?_
  rw [← hkeeps₂.stack, hworld₁] at heax hworld₂
  exact hrest d₂ (hkeeps₁.trans hkeeps₂) heax hworld₂

theorem leads_reportAndStop (h : Linked p c) {handler : Handler} {number : Operand AsmSymbol}
    {n : BitVec 32} {format : AsmSymbol}
    (hnumber : ∀ d' : Data AsmSymbol W, d'.vars = d.vars → number.value p d' = n)
    (hpost : ∀ m saved, Stopped p m → m.data.world =
      c.systemStop p (c.report p format n handler saved (c.setDisp d.world)) → post m) :
    p.Leads (reportAndStop handler number format) d post := by
  refine h.leads_beginning hnumber fun d' _ _ hworld' => ?_
  refine h.leads_systemStop fun m hm hworld => hpost m d'.stack hm ?_
  rw [hworld, hworld']

/-- A bit of a variable is tested. -/
theorem leads_testBit {v : AsmSymbol} {bit : BitVec 32}
    (hrest : ∀ d', d.Keeps d' → d'.regs .eax = d.vars v &&& bit →
      d'.zero = decide (d.vars v &&& bit = 0) → d'.world = d.world → p.Leads rest d' post) :
    p.Leads (.op (.mov .eax (.variable v)) :: .op (.and .eax bit) :: rest) d post := by
  refine .mov fun d₁ hkeeps₁ heax₁ hworld₁ => ?_
  refine .and fun d₂ hkeeps₂ heax₂ hzero hworld₂ => ?_
  rw [heax₁] at heax₂ hzero
  exact hrest d₂ (hkeeps₁.trans hkeeps₂) heax₂ hzero (hworld₂.trans hworld₁)

/-- One of two messages, by a bit of a variable. -/
theorem leads_choice (h : Linked p c) {v clear set l e : AsmSymbol} {bit : BitVec 32} (hle : e ≠ l)
    (hrest : ∀ d', d.Keeps d' →
      d'.world = (c.puts (p.address (if d.vars v &&& bit = 0 then clear else set)) d.world).2 →
      p.Leads rest d' post) :
    p.Leads (.op (.mov .eax (.variable v)) :: .op (.and .eax bit) :: .jnz l ::
      .op (.push (.address clear)) :: .call .puts :: .op (.addEsp 4) :: .jmp e :: .label l ::
      .op (.push (.address set)) :: .call .puts :: .op (.addEsp 4) :: .label e :: rest) d post := by
  refine leads_testBit fun d₁ hkeeps₁ _ hzero hworld₁ => ?_
  rw [← hworld₁] at hrest
  refine .jnz (by simp) ?_
  simp only [hzero, decide_eq_true_eq]
  by_cases hbit : d.vars v &&& bit = 0
  · rw [if_pos hbit] at hrest ⊢
    refine h.leads_puts clear fun d₂ hkeeps₂ hworld₂ => ?_
    refine .jmp (by simp) ?_
    simp only [behind, Ne.symm hle, if_false, if_true]
    exact hrest d₂ (hkeeps₁.trans hkeeps₂) hworld₂
  · rw [if_neg hbit] at hrest ⊢
    simp only [behind, if_true]
    refine h.leads_puts set fun d₂ hkeeps₂ hworld₂ => ?_
    exact .label (hrest d₂ (hkeeps₁.trans hkeeps₂) hworld₂)

/-- A message, if a bit of a variable is set. -/
theorem leads_option (h : Linked p c) {v message e : AsmSymbol} {bit : BitVec 32}
    (hrest : ∀ d', d.Keeps d' → d'.world = (if d.vars v &&& bit = 0 then d.world
        else (c.puts (p.address message) d.world).2) → p.Leads rest d' post) :
    p.Leads (.op (.mov .eax (.variable v)) :: .op (.and .eax bit) :: .jz e ::
      .op (.push (.address message)) :: .call .puts :: .op (.addEsp 4) :: .label e :: rest)
      d post := by
  refine leads_testBit fun d₁ hkeeps₁ _ hzero hworld₁ => ?_
  rw [← hworld₁] at hrest
  refine .jz (by simp) ?_
  simp only [hzero, decide_eq_true_eq]
  by_cases hbit : d.vars v &&& bit = 0
  · rw [if_pos hbit] at hrest ⊢
    simp only [behind, if_true]
    exact hrest d₁ hkeeps₁ rfl
  · rw [if_neg hbit] at hrest ⊢
    refine h.leads_puts message fun d₂ hkeeps₂ hworld₂ => ?_
    exact .label (hrest d₂ (hkeeps₁.trans hkeeps₂) hworld₂)

/-- A bit of a port is tested. -/
theorem leads_testPort {port : BitVec 16} {bit : BitVec 8} {l : AsmSymbol}
    (hl : .label l ∈ rest)
    (hrest : ∀ d', d'.al = (p.input port d.world).1 &&& bit →
      d'.world = (p.input port d.world).2 →
      p.Leads (if (p.input port d.world).1 &&& bit = 0 then behind l rest else rest) d' post) :
    p.Leads (.op (.inAl port) :: .op (.andAl bit) :: .jz l :: rest) d post := by
  refine .op rfl (.op rfl (.jz hl ?_))
  simp only [Data.zero_setZero, Data.al_setAl, decide_eq_true_eq]
  exact hrest _ (by simp) rfl

theorem leads_nmi (h : Linked p c)
    (hpost : ∀ m saved, Stopped p m → m.data.world = c.systemStop p (c.nmi p
      (c.report p .strSystemException (d.vars (.number .nmi)) .nmi saved (c.setDisp d.world))) →
      post m) :
    p.Leads i386Nmi d post := by
  refine h.leads_beginning (n := d.vars (.number .nmi)) (fun d' hd' => congrFun hd' _)
    fun d₂ _ _ hworld₂ => ?_
  have hend : ∀ d', d'.world = c.nmi p d₂.world →
      p.Leads [.call .i386SystemStop, .op .popad, .iretd] d' post := by
    intro d' hd'
    refine h.leads_systemStop fun m hm hworld => hpost m d₂.stack hm ?_
    rw [hworld, hd', hworld₂]
  refine leads_testPort (by simp) fun d₃ _ hworld₃ => ?_
  by_cases hwatchdog : (p.input 0x92 d₂.world).1 &&& 0x10 = 0
  · rw [if_pos hwatchdog]
    simp only [behind, reduceCtorEq, if_false, if_true]
    have hnmi : c.nmi p d₂.world = (c.puts (p.address (if (p.input 0x61 d₃.world).1 &&& 0x40 = 0
        then .strChannelError else .strParityError)) (p.input 0x61 d₃.world).2).2 := by
      rw [CRoutines.nmi, hworld₃]
      exact if_pos hwatchdog
    refine leads_testPort (by simp) fun d₄ hal hworld₄ => ?_
    rw [← hworld₄] at hnmi
    by_cases hchannel : (p.input 0x61 d₃.world).1 &&& 0x40 = 0
    · rw [if_pos hchannel] at hnmi ⊢
      simp only [behind, reduceCtorEq, if_false, if_true]
      refine h.leads_puts _ fun d₅ _ hworld₅ => ?_
      refine .jmp (by simp) ?_
      simp only [behind, reduceCtorEq, if_false, if_true]
      exact hend d₅ (hworld₅.trans hnmi.symm)
    · -- only the channel's bit is left to be tested for the parity
      rw [if_neg hchannel] at hnmi ⊢
      have hparity : d₄.al &&& 0x80 = 0 := by
        rw [hal, BitVec.and_assoc]
        exact BitVec.and_zero
      refine .op rfl (.jz (by simp) ?_)
      simp only [Data.zero_setZero, hparity, decide_true, if_true]
      simp only [behind, reduceCtorEq, if_false, if_true]
      refine h.leads_puts _ fun d₅ _ hworld₅ => ?_
      exact .label (hend d₅ (hworld₅.trans hnmi.symm))
  · rw [if_neg hwatchdog]
    refine .label (h.leads_puts _ fun d₅ _ hworld₅ => ?_)
    refine .jmp (by simp) ?_
    simp only [behind, reduceCtorEq, if_false, if_true]
    refine hend d₅ (hworld₅.trans ?_)
    rw [CRoutines.nmi, hworld₃]
    exact (if_neg hwatchdog).symm

theorem leads_genprotectfault (h : Linked p c) {code eip cs eflags : BitVec 32}
    {stack : List (BitVec 32)} (hstack : d.stack = code :: eip :: cs :: eflags :: stack)
    (hpost : ∀ m saved, m.pc = d.regs .ecx → m.data.cs = d.regs .eax → m.data.eflags = eip →
      m.data.stack = cs :: eflags :: stack →
      (let n := d.vars (.number .genprotectfault)
        let report := c.printf (p.address .strSystemException :: n ::
          p.address (.message .genprotectfault) :: saved) (c.setDisp d.world)
        m.data.world = c.genprotectfault p report.1 code saved report.2) → post m) :
    p.Leads i386Genprotectfault d post := by
  refine .pop hstack ?_
  have hnumber : Function.update d.vars AsmSymbol.intGpfCode code (.number .genprotectfault) =
      d.vars (.number .genprotectfault) :=
    Function.update_of_ne AsmSymbol.noConfusion _ _
  refine h.leads_beginning (n := d.vars (.number .genprotectfault))
    (fun d' hd' => (congrFun hd' _).trans hnumber) fun d₁ hkeeps₁ heax hworld₁ => ?_
  have hcode : d₁.vars .intGpfCode = code := by
    rw [hkeeps₁.vars]
    simp
  -- with two words on top of the saved ones, the registers come back shifted
  have hend : ∀ d' : Data AsmSymbol W, d₁.Keeps d' →
      d'.world = (c.puts (p.address (if d₁.regs .eax = 0 then .strGPFOther
        else if code &&& 0x02 = 0 then .strGPFGDTError else .strGPFIDTError)) d₁.world).2 →
      p.Leads [.op (.push (.variable .intGpfCode)), .op (.push (.address .strGPFErrorCodeStr)),
        .call .printf, .label .i386StopSystem, .op .popad, .iretd] d' post := by
    intro d' hkeeps' hworld'
    refine .push (.push (.callPerforms h.printf fun d₂ hkeeps₂ _ hworld₂ => ?_))
    have hstack₂ : d₂.stack = p.address .strGPFErrorCodeStr :: d'.vars .intGpfCode ::
        d'.stack := hkeeps₂.stack
    rw [hkeeps'.stack, hkeeps₁.stack] at hstack₂
    obtain ⟨regs, hpop⟩ : ∃ regs, Instr.apply p d₂ .popad = some { d₂ with
        regs := regs
        stack := d.regs .ecx :: d.regs .eax :: eip :: cs :: eflags :: stack } :=
      ⟨_, by rw [Instr.apply, hstack₂]; rfl⟩
    refine .label (.op hpop (.iretd rfl (hpost _ d₁.stack rfl rfl rfl rfl ?_)))
    change d₂.world = c.genprotectfault p _ code d₁.stack _
    rw [hworld₂, CRoutines.genprotectfault, ← heax]
    change (c.printf (_ :: d'.vars .intGpfCode :: d'.stack) d'.world).2 = _
    rw [hkeeps'.vars, hcode, hkeeps'.stack, hworld', hworld₁]
    rfl
  refine .or fun d₂ hkeeps₂ hzero₂ hworld₂ => ?_
  rw [← hworld₂] at hend
  refine .jz (by simp) ?_
  simp only [hzero₂, BitVec.or_self, decide_eq_true_eq]
  by_cases hprinted : d₁.regs .eax = 0
  · rw [if_pos hprinted] at hend ⊢
    simp only [behind, reduceCtorEq, if_false, if_true]
    refine h.leads_puts _ fun d₃ hkeeps₃ hworld₃ => ?_
    exact .label (hend d₃ (hkeeps₂.trans hkeeps₃) hworld₃)
  rw [if_neg hprinted] at hend ⊢
  refine leads_testBit fun d₃ hkeeps₃ heax₃ hzero₃ hworld₃ => ?_
  rw [hkeeps₂.vars, hcode] at heax₃ hzero₃
  rw [← hworld₃] at hend
  refine .jnz (by simp) ?_
  simp only [hzero₃, decide_eq_true_eq]
  by_cases hidt : code &&& 0x02 = 0
  · -- nothing is left of the code when the second bit is looked for
    rw [if_pos hidt] at hend ⊢
    refine .and fun d₄ hkeeps₄ _ hzero₄ hworld₄ => ?_
    have hnone : d₃.regs .eax &&& 0x04 = 0 := by
      rw [heax₃, hidt]
      exact BitVec.zero_and
    rw [← hworld₄] at hend
    refine .jnz (by simp) ?_
    simp only [hzero₄, hnone, decide_true, if_true]
    refine h.leads_puts _ fun d₅ hkeeps₅ hworld₅ => ?_
    refine .jmp (by simp) ?_
    simp only [behind, reduceCtorEq, if_false, if_true]
    exact hend d₅ (((hkeeps₂.trans hkeeps₃).trans hkeeps₄).trans hkeeps₅) hworld₅
  · rw [if_neg hidt] at hend ⊢
    simp only [behind, reduceCtorEq, if_false, if_true]
    refine h.leads_puts _ fun d₄ hkeeps₄ hworld₄ => ?_
    refine .jmp (by simp) ?_
    simp only [behind, reduceCtorEq, if_false, if_true]
    exact hend d₄ ((hkeeps₂.trans hkeeps₃).trans hkeeps₄) hworld₄

/-- The report of the address of the last page fault. -/
theorem leads_printAddress (h : Linked p c) {format : AsmSymbol}
    (hrest : ∀ d', d.Keeps d' →
      d'.world = (c.printf (p.address format :: d.regs .eax :: d.stack) d.world).2 →
      p.Leads rest d' post) :
    p.Leads (.op (.push (.reg .eax)) :: .op (.push (.address format)) :: .call .printf ::
      .op (.addEsp 8) :: rest) d post := by
  refine .push (.push (.callPerforms h.printf fun d₁ hkeeps₁ _ hworld₁ => ?_))
  refine .addEsp [p.address format, d.regs .eax] rfl hkeeps₁.stack
    fun d₂ hkeeps₂ _ hworld₂ => ?_
  exact hrest d₂ ⟨hkeeps₂.cs.trans hkeeps₁.cs, hkeeps₂.cr2.trans hkeeps₁.cr2, hkeeps₂.stack,
    hkeeps₂.vars.trans hkeeps₁.vars⟩ (hworld₂.trans hworld₁)

theorem leads_pagefault (h : Linked p c) {code : BitVec 32} {stack : List (BitVec 32)}
    (hstack : d.stack = code :: stack)
    (hpost : ∀ m saved, Stopped p m → m.data.world = c.systemStop p (c.pagefault p d.cr2 code saved
      (c.report p .strSystemException (d.vars (.number .pagefault)) .pagefault saved
        (c.setDisp d.world))) → post m) :
    p.Leads i386Pagefault d post := by
  refine .pop hstack ?_
  have hnumber : Function.update d.vars AsmSymbol.intPfErrorCode code (.number .pagefault) =
      d.vars (.number .pagefault) := Function.update_of_ne (by simp) _ _
  refine h.leads_beginning (n := d.vars (.number .pagefault))
    (fun d' hd' => (congrFun hd' _).trans hnumber) fun d₁ hkeeps₁ _ hworld₁ => ?_
  have hcode : d₁.vars .intPfErrorCode = code := by
    rw [hkeeps₁.vars]
    simp
  -- the address and its page
  refine .mov fun d₂ hkeeps₂ heax₂ hworld₂ => ?_
  refine h.leads_printAddress fun d₃ hkeeps₃ hworld₃ => ?_
  have hsame₃ := hkeeps₂.trans hkeeps₃
  refine .mov fun d₄ hkeeps₄ heax₄ hworld₄ => ?_
  refine .and fun d₅ hkeeps₅ heax₅ _ hworld₅ => ?_
  have hsame₅ := (hsame₃.trans hkeeps₄).trans hkeeps₅
  refine h.leads_printAddress fun d₆ hkeeps₆ hworld₆ => ?_
  have hsame₆ := hsame₅.trans hkeeps₆
  -- the bits of the error code
  refine h.leads_choice (by simp) fun d₇ hkeeps₇ hworld₇ => ?_
  have hsame₇ := hsame₆.trans hkeeps₇
  refine h.leads_choice (by simp) fun d₈ hkeeps₈ hworld₈ => ?_
  have hsame₈ := hsame₇.trans hkeeps₈
  refine h.leads_choice (by simp) fun d₉ hkeeps₉ hworld₉ => ?_
  have hsame₉ := hsame₈.trans hkeeps₉
  refine h.leads_option fun d₁₀ hkeeps₁₀ hworld₁₀ => ?_
  have hsame₁₀ := hsame₉.trans hkeeps₁₀
  refine h.leads_option fun d₁₁ hkeeps₁₁ hworld₁₁ => ?_
  refine h.leads_systemStop fun m hm hworld => hpost m d₁.stack hm ?_
  have haddress₂ : d₂.regs .eax = d.cr2 := heax₂.trans hkeeps₁.cr2
  have haddress₄ : d₄.regs .eax = d.cr2 := heax₄.trans (hsame₃.cr2.trans hkeeps₁.cr2)
  rw [hworld, hworld₁₁, hworld₁₀, hworld₉, hworld₈, hworld₇, hworld₆, hworld₅, hworld₄, hworld₃,
    hworld₂, hsame₁₀.vars, hsame₉.vars, hsame₈.vars, hsame₇.vars, hsame₆.vars, hcode, heax₅,
    haddress₄, haddress₂, hsame₅.stack, hkeeps₂.stack, hworld₁]
  rfl

end Linked

/-! ## How the handlers end -/

/-- The handlers that stop the processor. -/
def Handler.stops : Handler → Bool
  | .nmi | .overflow | .badopcode | .deviceerror | .doublefault | .invalidtss | .segnotpresent
  | .stacksegfault | .pagefault | .machinecheck | .simdexception | .securityexception => true
  | _ => false

namespace Linked

variable {p : Program AsmSymbol W} {c : CRoutines W} {d : Data AsmSymbol W}
  {post : State AsmSymbol W → Prop} {handler : Handler}

end Linked

/-! ## Through the interrupt table -/

/-- The handlers of `install_cpu_exceptions`, with their vectors. -/
def exceptionHandlers : List (ℕ × Handler) :=
  [(0, .divbyzero), (1, .debugtrap), (2, .nmi), (3, .breakpoint), (4, .overflow),
    (5, .bounderror), (6, .badopcode), (7, .deviceerror), (8, .doublefault), (10, .invalidtss),
    (11, .segnotpresent), (12, .stacksegfault), (13, .genprotectfault), (14, .pagefault),
    (16, .fpuexception), (17, .aligncheck), (18, .machinecheck), (19, .simdexception),
    (20, .virtualizeexception), (30, .securityexception)]

/-- The handler behind a vector of the processor. -/
def handlerOf (v : ℕ) : Handler :=
  ((exceptionHandlers.reverse.find? (·.1 = v)).map Prod.snd).getD .defaulthandler

/-- The addresses that `cpu.c` takes, as the linker puts them. -/
def asmSymbols (p : Program AsmSymbol W) (interrupts : BitVec 32) : CpuSymbols where
  interrupts := interrupts
  i386Defaulthandler := p.address (.entry .defaulthandler)
  i386Divbyzero := p.address (.entry .divbyzero)
  i386Debugtrap := p.address (.entry .debugtrap)
  i386Nmi := p.address (.entry .nmi)
  i386Breakpoint := p.address (.entry .breakpoint)
  i386Overflow := p.address (.entry .overflow)
  i386Bounderror := p.address (.entry .bounderror)
  i386Badopcode := p.address (.entry .badopcode)
  i386Deviceerror := p.address (.entry .deviceerror)
  i386Doublefault := p.address (.entry .doublefault)
  i386Invalidtss := p.address (.entry .invalidtss)
  i386Segnotpresent := p.address (.entry .segnotpresent)
  i386Stacksegfault := p.address (.entry .stacksegfault)
  i386Genprotectfault := p.address (.entry .genprotectfault)
  i386Pagefault := p.address (.entry .pagefault)
  i386Fpuexception := p.address (.entry .fpuexception)
  i386Aligncheck := p.address (.entry .aligncheck)
  i386Machinecheck := p.address (.entry .machinecheck)
  i386Simdexception := p.address (.entry .simdexception)
  i386Virtualizeexception := p.address (.entry .virtualizeexception)
  i386Securityexception := p.address (.entry .securityexception)

/-- The exceptions that come with an error code. -/
def pushesErrorCode (v : ℕ) : Bool := v ∈ [8, 10, 11, 12, 13, 14, 17, 21, 29, 30]

/-- The vectors whose handlers stop the processor. -/
def stoppingVectors : List ℕ := [2, 4, 6, 7, 8, 10, 11, 12, 14, 18, 19, 30]

theorem lastInstalled_asmSymbols (p : Program AsmSymbol W) (interrupts : BitVec 32)
    (calls : List InstallCall) {v : ℕ} (hv : v < 32) :
    lastInstalled (asmSymbols p interrupts) (installsOf (asmSymbols p interrupts) calls) v =
      p.address (.entry (handlerOf v)) := by
  have hexceptions : (asmSymbols p interrupts).exceptions =
      exceptionHandlers.map fun e => (e.1, p.address (.entry e.2)) := rfl
  have hcalls : (calls.map fun call => (call.vector, call.fnAddress)).reverse.find?
      (·.1 = v) = none := by
    rw [List.find?_eq_none]
    intro e he
    obtain ⟨call, -, rfl⟩ := List.mem_map.mp (List.mem_reverse.mp he)
    rw [InstallCall.vector]
    simp
    omega
  rw [lastInstalled, installsOf, List.reverse_append, List.find?_append, hcalls, Option.none_or,
    hexceptions, ← List.map_reverse, List.find?_map, handlerOf]
  change ((((exceptionHandlers.reverse.find? (·.1 = v)).map _).map _).getD _) = _
  cases exceptionHandlers.reverse.find? (·.1 = v) <;> rfl

/-- The table after any devices were installed. -/
theorem gates_installed (sym : CpuSymbols) (cpu : Cpu) {calls : List InstallCall}
    (hcalls : ∀ call ∈ calls, call.Fits) :
    (calls.foldl cpuInstallDevice (cpuDriverInit sym cpu)).Gates
      (lastInstalled sym (installsOf sym calls)) := by
  induction calls using List.reverseRecOn with
  | nil => exact Cpu.gates_cpuDriverInit sym cpu
  | append_singleton calls call ih =>
    obtain ⟨hinit, hlast⟩ := List.forall_mem_append.mp hcalls
    rw [List.foldl_append, installsOf, List.map_append, ← List.append_assoc]
    exact (ih hinit).cpuInstallDevice (hlast call (List.mem_singleton_self _))

/-- Behind a processor's vector is its handler, whatever devices were installed. -/
theorem offset_gate (p : Program AsmSymbol W) (interrupts : BitVec 32) (cpu : Cpu)
    {calls : List InstallCall} (hcalls : ∀ call ∈ calls, call.Fits) {v : ℕ} (hv : v < 32) :
    ((calls.foldl cpuInstallDevice (cpuDriverInit (asmSymbols p interrupts) cpu)).interrupts
      v).offset = p.address (.entry (handlerOf v)) := by
  rw [← lastInstalled_asmSymbols p interrupts calls hv]
  exact (gates_installed _ cpu hcalls v (by omega)).offset

/-- The handlers behind the vectors, and how they end. -/
theorem handlerOf_cases : ∀ v < 32, (handlerOf v).stops = decide (v ∈ stoppingVectors) ∧
    (handlerOf v = .genprotectfault ↔ v = 13) := by
  decide

/-- All handlers. -/
def allHandlers : List Handler :=
  [.defaulthandler, .divbyzero, .debugtrap, .nmi, .breakpoint, .overflow, .bounderror,
    .badopcode, .deviceerror, .doublefault, .invalidtss, .segnotpresent, .stacksegfault,
    .genprotectfault, .pagefault, .fpuexception, .aligncheck, .machinecheck, .simdexception,
    .virtualizeexception, .securityexception]

theorem mem_allHandlers (h : Handler) : h ∈ allHandlers := by
  cases h <;> decide

/-- The assembly files one behind the other. -/
def exceptionImage : List (Line AsmSymbol) :=
  (.label .i386ExceptionSetDisp :: i386ExceptionSetDisp) ++
    ((.label .i386SystemStop :: i386SystemStop) ++
      allHandlers.flatMap fun h => .label (.entry h) :: h.code)

theorem placed_exceptionImage {outside : Program AsmSymbol W} {s : AsmSymbol}
    {code : List (Line AsmSymbol)} (pre post : List (Line AsmSymbol))
    (himage : exceptionImage = pre ++ (.label s :: code) ++ post) :
    (link exceptionImage outside).Placed ((link exceptionImage outside).address s) code := by
  have hlabels : (exceptionImage.filterMap Line.symbol?).Nodup := by decide +kernel
  have hplaced : (link exceptionImage outside).Placed _ (.label s :: code) :=
    placed_link himage hlabels (by decide +kernel)
  exact hplaced.1 ▸ hplaced.2

/-- Linked with any C routines, the files are linked. -/
theorem linked_exceptionImage {outside : Program AsmSymbol W} {c : CRoutines W}
    (hprintf : outside.Performs .printf c.printf)
    (hputs : outside.Performs .puts fun stack => c.puts (stack.headD 0))
    (hcolor : outside.Performs .displayChangeColor
      fun stack => c.displayChangeColor (stack.headD 0))
    (hclear : outside.Performs .displayClear fun _ => c.displayClear)
    (hsetDisp : outside.routine .i386ExceptionSetDisp = none)
    (hstop : outside.routine .i386SystemStop = none) :
    Linked (link exceptionImage outside) c := by
  refine ⟨hprintf, hputs, hcolor, hclear, hsetDisp, hstop, ?_, ?_, fun h => ?_⟩
  · exact placed_exceptionImage [] _ rfl
  · exact placed_exceptionImage (.label .i386ExceptionSetDisp ::
      MissyKernel.i386ExceptionSetDisp) _ (List.append_assoc _ _ _).symm
  · obtain ⟨before, after, hsplit⟩ := List.append_of_mem (mem_allHandlers h)
    refine placed_exceptionImage ((.label .i386ExceptionSetDisp ::
      MissyKernel.i386ExceptionSetDisp) ++ ((.label .i386SystemStop ::
        MissyKernel.i386SystemStop) ++ before.flatMap fun h => .label (.entry h) :: h.code))
      (after.flatMap fun h => .label (.entry h) :: h.code) ?_
    rw [exceptionImage, hsplit]
    simp

end MissyKernel
