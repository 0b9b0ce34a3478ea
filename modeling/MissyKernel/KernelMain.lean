import MissyKernel.Chrdev
import MissyKernel.ConsoleText
import MissyKernel.Cpu
import MissyKernel.Serial
import MissyKernel.Timer

/-!
# The kernel's main function (`kernel.c`)

`kernel_main` clears the screen, sets its drivers up and registers the serial port as the
first device; then it puts on the screen what comes in there, until a byte comes that reads
as -1. The loop is followed one port access at a time, with bytes arriving in between.

The end of text, 3, reads as -1, and so does 255, which is sent for a letter by some. The
memory manager's part is left out: it prints nothing, and what `malloc` answers is given.

The invariant of the loop is `Echoing.Kept`: what the chip took is on the screen, in hand or
waiting, in this order. `EchoTask.Holds` says for each place in the loop what the driver holds at
that moment, and `Echoing.Kept.step` that every access and every event on the line keeps it. The
screen is then the one of `TerminalText` for the kernel's lines and the bytes taken.
-/

namespace MissyKernel

/-- The addresses that the linker gives. -/
structure KernelSymbols : Type where
  /-- those of `cpu.c` -/
  cpu : CpuSymbols
  timerIrq : BitVec 32
  serialIrq : BitVec 32
  /-- `base_inode` of `chrdev.c` -/
  baseInode : BitVec 32
  /-- what is in the array on the stack that `printf` makes its numbers in -/
  buffer : ℕ → BitVec 8

/-- The drivers' statics and the hardware. -/
structure Devices : Type where
  cpu : Cpu
  pit : Pit
  uart : Uart
  /-- `_port` of `serial.c` -/
  port : BitVec 16
  console : Console
  chrdev : Chrdev

/-- `serial_read_char`, among the functions of devices. -/
def serialReadChar : ℕ := 0

/-- `serial_write_chars`, among the functions of devices. -/
def serialWriteChars : ℕ := 1

/-- The device's fields, over what `malloc` left there. -/
def serialDevice (device : CharacterDevice) : CharacterDevice :=
  { device with
    descriptor := 0
    readchar := some serialReadChar
    write := some serialWriteChars }

/-- `banner` -/
def banner : CString :=
  textString ("     __  __________ ______ ________  __                                       \n" ++
    "    /  \\/   /_   _// ____// ____/\\ \\/ / ************************************\n" ++
    "   / /\\__/ /  / /  \\___ \\ \\__  \\  \\  /  x86 Microcomputer Operating System *\n" ++
    "  / /   / /__/ /_ ____/ /____/ /  / /  version 0.0.1_alpha                 *\n" ++
    " /_/   /_/______//_____//_____/  /_/ ***************************************\n\n")
    (by decide +kernel)

/-- What `serial_init` prints if there is no memory. -/
def noSerialDevice : CString :=
  textString "Error allocating memory for serial device\n" (by decide +kernel)

/-- The line behind the loop. -/
def receivedEof : CString :=
  textString "Received EOF from input stream\n" (by decide +kernel)

namespace Devices

variable (sym : KernelSymbols)

/-- `printf` -/
def print (d : Devices) (fmt : CString) (args : List VaArg) : Option Devices :=
  (printf sym.buffer d.console fmt args).map fun r => { d with console := r.2 }

/-- The address of a node of the registry. -/
def nodeAddress : Option NodeId → BitVec 32
  | none => 0
  | some .base => sym.baseInode
  | some (.block address) => BitVec.ofNat 32 address

/-- `register_device`, with the line that it prints. -/
def register (d : Devices) (device : ℕ) (malloc : MallocAnswer) : Option (BitVec 32 × Devices) :=
  (d.print sym (textString "got inode address 0x%x\n" (by decide +kernel))
    [.int (nodeAddress sym (d.chrdev.newInode malloc).1)]).map fun d =>
      let (descriptor, chrdev) := registerDevice d.chrdev device malloc
      (descriptor, { d with chrdev := chrdev })

/-- `serial_init`, with what `malloc` answers for the device and for a node. -/
def serialInit (d : Devices) (port : BitVec 16) (device : Option ℕ) (malloc : MallocAnswer) :
    Option (BitVec 32 × Devices) :=
  let d := { d with
    cpu := cpuInstallDevice d.cpu ⟨4, sym.serialIrq⟩
    uart := initializeSerialDevice d.uart port
    port := port }
  match device with
  | none =>
    (d.print sym noSerialDevice []).map fun d => (-1, d)
  | some device =>
    let devices := Function.update d.chrdev.devices device
      (serialDevice (d.chrdev.devices device))
    { d with chrdev := { d.chrdev with devices := devices } }.register sym device malloc

/-- `kernel_main` before its loop, with what two reads of the display's ports and two calls of
`malloc` answer. -/
def kernelMain (d : Devices) (preserve attributes : BitVec 8) (device : Option ℕ)
    (malloc : MallocAnswer) : Option (BitVec 32 × Devices) := do
  let display := displayInit d.console.display preserve attributes
  let display := (displayChangeColor display 0x2f).2
  let display := displayClear display
  let d := { d with console := { d.console with display := display } }
  let d ← d.print sym (textString "%s\n" (by decide +kernel)) [.str banner]
  let d := { d with cpu := cpuDriverInit sym.cpu d.cpu }
  let d := { d with cpu := cpuInstallDevice d.cpu ⟨0, sym.timerIrq⟩ }
  let pit ← pit8254Start d.pit 100
  let (dd, d) ← { d with pit := pit }.serialInit sym 0x3f8 device malloc
  let d ← d.print sym (textString "com port device descriptor: %d\n" (by decide +kernel))
    [.int dd]
  some (dd, d)

end Devices

/-- Where the loop is. -/
inductive EchoTask : Type where
  /-- before the call of `read_device_char` -/
  | call
  /-- in the loop of `serial_read_char` -/
  | poll
  /-- behind it, before the byte is read -/
  | fetch
  /-- the answer is there -/
  | got (c : BitVec 32)
  /-- the last line is printed -/
  | finished
deriving DecidableEq

/-- The loop under way. -/
structure Echoing : Type where
  /-- where it is -/
  task : EchoTask
  /-- the chip -/
  uart : Uart
  /-- the console -/
  console : Console

/-- A step of the loop; a call whose answer C leaves undefined has none. -/
def Echoing.step (buffer : ℕ → BitVec 8) (chrdev : Chrdev) (port : BitVec 16) (dd : BitVec 32)
    (e : Echoing) : Option Echoing :=
  match e.task with
  | .call =>
    match readDeviceChar chrdev dd with
    | .called _ function [] =>
      if function = serialReadChar then some { e with task := .poll } else none
    | _ => none
  | .poll =>
    let (status, uart) := e.uart.inportb (port + 5)
    some { e with task := if status &&& 1 = 0 then .poll else .fetch, uart := uart }
  | .fetch =>
    let (c, uart) := e.uart.inportb port
    some { e with task := .got (serialChar c), uart := uart }
  | .got c =>
    if c ≠ -1 then some { e with task := .call, console := (putchar e.console c).2 }
    else
      (printf buffer e.console receivedEof []).map fun r =>
        { e with task := .finished, console := r.2 }
  | .finished => none

/-- A step of the loop, or of the line. -/
inductive Echoes (buffer : ℕ → BitVec 8) (chrdev : Chrdev) (port : BitVec 16) (dd : BitVec 32) :
    Echoing → SerialEvent → Echoing → Prop where
  | driver {e e' : Echoing} : e.step buffer chrdev port dd = some e' →
    Echoes buffer chrdev port dd e .driver e'
  | arrive (e : Echoing) (b : BitVec 8) :
    Echoes buffer chrdev port dd e (.arrive b) { e with uart := e.uart.arrive b }
  | depart (e : Echoing) :
    Echoes buffer chrdev port dd e .depart { e with uart := e.uart.depart }

/-! ## The bytes -/

/-- The byte ends the loop. -/
def endsInput (b : BitVec 8) : Bool := b = 3 || b = 0xff

/-- `putchar` on what the bytes read as. -/
def Console.echo (con : Console) (bytes : List (BitVec 8)) : Console :=
  bytes.foldl (fun con b => (putchar con (serialChar b)).2) con

theorem serialChar_eq_eof_iff (b : BitVec 8) : serialChar b = -1 ↔ endsInput b = true := by
  have hall : ∀ b : BitVec 8, serialChar b = -1 ↔ endsInput b = true := by decide
  exact hall b

/-- A text, with carriage returns for newlines or not. -/
def IsTyped (b : BitVec 8) : Prop := IsText b ∨ b = 0x0d

instance : DecidablePred IsTyped := fun b => inferInstanceAs (Decidable (IsText b ∨ b = 0x0d))

/-- A carriage return is a newline here. -/
def newlineOf (b : BitVec 8) : BitVec 8 := if b = 0x0d then 0x0a else b

theorem isText_newlineOf {b : BitVec 8} (hb : IsTyped b) : IsText (newlineOf b) := by
  have hall : ∀ b : BitVec 8, IsTyped b → IsText (newlineOf b) := by decide
  exact hall b hb

/-- What the driver does with a byte of a text. -/
theorem displayWrite_typed {b : BitVec 8} (hb : IsTyped b) (st : Display) :
    displayWrite st (serialChar b) = st.writeChar (newlineOf b) := by
  rcases hb with hb | rfl
  · have hall : ∀ b : BitVec 8, IsText b → serialChar b = b.setWidth 32 ∧ newlineOf b = b := by
      decide
    rw [(hall b hb).1, (hall b hb).2]
    rfl
  · rfl

/-- What is typed is a text on the screen. -/
theorem display_echo (con : Console) {bytes : List (BitVec 8)} (h : ∀ b ∈ bytes, IsTyped b) :
    (con.echo bytes).display = (bytes.map newlineOf).foldl Display.writeChar con.display := by
  induction bytes generalizing con with
  | nil => rfl
  | cons b bytes ih =>
    obtain ⟨hb, hbytes⟩ := List.forall_mem_cons.mp h
    rw [Console.echo, List.foldl_cons, ← Console.echo, ih _ hbytes, List.map_cons,
      List.foldl_cons, ← displayWrite_typed hb]
    rfl

/-! ## Before the loop -/

/-- What is on the screen before the loop. -/
def kernelText (sym : KernelSymbols) : List (BitVec 8) :=
  banner.bytes ++ (ascii "\n" ++ (ascii "got inode address 0x" ++ (hexText sym.baseInode ++
    (ascii "\n" ++ (ascii "com port device descriptor: " ++ (ascii "1" ++ ascii "\n"))))))

theorem isText_kernelText (sym : KernelSymbols) : ∀ c ∈ kernelText sym, IsText c := by
  simp only [kernelText, List.forall_mem_append]
  exact ⟨(isText_ascii (by decide +kernel)).1, (isText_ascii (by decide +kernel)).1,
    (isText_ascii (by decide +kernel)).1, (isText_numeral .x _).1,
    (isText_ascii (by decide +kernel)).1, (isText_ascii (by decide +kernel)).1,
    (isText_ascii (by decide +kernel)).1, (isText_ascii (by decide +kernel)).1⟩

namespace Devices

variable {sym : KernelSymbols} {d : Devices}

/-- The console after a text. -/
def wrote (d : Devices) (text : List (BitVec 8)) : Devices :=
  { d with console := d.console.write text }

@[simp] theorem uart_wrote (text : List (BitVec 8)) : (d.wrote text).uart = d.uart := rfl

@[simp] theorem port_wrote (text : List (BitVec 8)) : (d.wrote text).port = d.port := rfl

@[simp] theorem chrdev_wrote (text : List (BitVec 8)) : (d.wrote text).chrdev = d.chrdev := rfl

theorem print_number {fmt : CString} (before after : String) (conv : Conv)
    (hbefore : isLiteral before = true) (hafter : isLiteral after = true)
    (hfmt : fmt.bytes = ascii before ++ (0x25 :: conv.letter :: ascii after)) (n : BitVec 32) :
    d.print sym fmt [.int n] = some (d.wrote
      (ascii before ++ ((numeral conv.base n.toNat).map lettermap ++ ascii after))) := by
  obtain ⟨count, hprintf⟩ := printf_number sym.buffer before after conv hbefore hafter hfmt n
    d.console
  rw [print, hprintf]
  rfl

theorem print_banner :
    d.print sym (textString "%s\n" (by decide +kernel)) [.str banner] =
      some (d.wrote (banner.bytes ++ ascii "\n")) := by
  have hbanner : (∀ c ∈ banner.bytes, IsText c) ∧ banner.bytes.length ≤ 500 :=
    isText_ascii (by decide +kernel)
  have hnewline : ascii "\n" = [0x0a] := by decide +kernel
  have hfmt : ascii "%s\n" = [0x25, 0x73, 0x0a] := by decide +kernel
  let pieces : List Piece := [.string banner, .literal 0x0a (by decide) (by decide)]
  have hpieces : pieces.flatMap Piece.text = banner.bytes ++ [0x0a] := by
    simp [pieces, Piece.text]
  obtain ⟨count, hprintf⟩ : ∃ count, printf sym.buffer d.console
      (textString "%s\n" (by decide +kernel)) [.str banner] =
        some (count, d.console.write (pieces.flatMap Piece.text)) := by
    refine ⟨_, printf_texts pieces hfmt rfl ?_ ?_ d.console⟩
    · rw [hpieces, List.forall_mem_append]
      exact ⟨hbanner.1, by simp [IsText]⟩
    · rw [hpieces, List.length_append, List.length_singleton]
      omega
  rw [print, hprintf, hpieces, hnewline, Option.map_some, wrote]

/-- The first registration takes the static node. -/
theorem register_eq (sym : KernelSymbols) (hcurrent : d.chrdev.currentInode = none)
    (hnumber : d.chrdev.currentInodeNumber = 1) (device : ℕ) (malloc : MallocAnswer) :
    d.register sym device malloc = some (1, { d.wrote (ascii "got inode address 0x" ++
        (hexText sym.baseInode ++ ascii "\n")) with
      chrdev := (registerDevice d.chrdev device malloc).2 }) := by
  have hnode : (d.chrdev.newInode malloc).1 = some .base := by
    simp [Chrdev.newInode, hcurrent]
  rw [register, print_number "got inode address 0x" "\n" .x (by decide +kernel)
    (by decide +kernel) (by decide +kernel), hnode, Option.map_some]
  simp only [wrote, (Chrdev.register_first device hcurrent hnumber malloc).1]
  rfl

/-- A device that is registered first is device 1. -/
theorem readDeviceChar_first (st : Chrdev) (hcurrent : st.currentInode = none)
    (hnumber : st.currentInodeNumber = 1) {device readchar : ℕ}
    (hreadchar : (st.devices device).readchar = some readchar) (malloc : MallocAnswer) :
    readDeviceChar (registerDevice st device malloc).2 1 = .called device readchar [] := by
  obtain ⟨-, hholds⟩ := Chrdev.register_first device hcurrent hnumber malloc
  have hkept : ((registerDevice st device malloc).2.devices device).readchar = some readchar := by
    simp [registerDevice, Chrdev.newInode, hcurrent, hreadchar]
  rw [Chrdev.readDeviceChar_eq, hholds.route_eq (by simp)]
  simp [routed, hkept]

/-- What the serial port's initialisation leaves. -/
theorem serialInit_eq (sym : KernelSymbols) (hcurrent : d.chrdev.currentInode = none)
    (hnumber : d.chrdev.currentInodeNumber = 1) (port : BitVec 16) (device : ℕ)
    (malloc : MallocAnswer) :
    ∃ d', d.serialInit sym port (some device) malloc = some (1, d') ∧
      d'.console = d.console.write (ascii "got inode address 0x" ++ (hexText sym.baseInode ++
        ascii "\n")) ∧
      d'.uart = initializeSerialDevice d.uart port ∧ d'.port = port ∧
      readDeviceChar d'.chrdev 1 = .called device serialReadChar [] := by
  let devices := Function.update d.chrdev.devices device
    (serialDevice (d.chrdev.devices device))
  have hreadchar : (devices device).readchar = some serialReadChar := by
    simp [devices, serialDevice]
  have hregister := register_eq (d := { d with
    cpu := cpuInstallDevice d.cpu ⟨4, sym.serialIrq⟩
    uart := initializeSerialDevice d.uart port
    port := port
    chrdev := { d.chrdev with devices := devices } }) sym hcurrent hnumber device malloc
  generalize ascii "got inode address 0x" ++ (hexText sym.baseInode ++ ascii "\n") = text
    at hregister ⊢
  refine ⟨_, hregister, rfl, rfl, rfl, ?_⟩
  exact readDeviceChar_first { d.chrdev with devices := devices } hcurrent hnumber hreadchar malloc

/-- The screen before the loop, and what the loop calls. -/
theorem kernelMain_eq (sym : KernelSymbols) (hcurrent : d.chrdev.currentInode = none)
    (hnumber : d.chrdev.currentInodeNumber = 1) (preserve attributes : BitVec 8) (device : ℕ)
    (malloc : MallocAnswer) :
    ∃ d' st, d.kernelMain sym preserve attributes (some device) malloc = some (1, d') ∧
      d'.console.display = (kernelText sym).foldl Display.writeChar (displayClear st) ∧
      st.colorAttrib = 0x2f ∧ d'.uart = initializeSerialDevice d.uart 0x3f8 ∧
      d'.port = 0x3f8 ∧ readDeviceChar d'.chrdev 1 = .called device serialReadChar [] := by
  let st := (displayChangeColor (displayInit d.console.display preserve attributes) 0x2f).2
  let cleared : Devices := { d with console := { d.console with display := displayClear st } }
  obtain ⟨firstLines, hfirstLines⟩ : ∃ text, text = banner.bytes ++ ascii "\n" := ⟨_, rfl⟩
  obtain ⟨lastLine, hlastLine⟩ : ∃ text, text = ascii "com port device descriptor: " ++
    (ascii "1" ++ ascii "\n") := ⟨_, rfl⟩
  have hbanner : cleared.print sym (textString "%s\n" (by decide +kernel)) [.str banner] =
      some (cleared.wrote firstLines) := hfirstLines ▸ print_banner
  obtain ⟨pit, hpit, -⟩ := pit8254Start_eq d.pit (show (100 : BitVec 32) ≠ 0 by decide)
  let timed : Devices := { cleared.wrote firstLines with
    cpu := cpuInstallDevice (cpuDriverInit sym.cpu d.cpu) ⟨0, sym.timerIrq⟩
    pit := pit }
  obtain ⟨registered, hserial, hconsole, huart, hport, hread⟩ :=
    serialInit_eq (d := timed) sym hcurrent hnumber 0x3f8 device malloc
  have hlast : registered.print sym (textString "com port device descriptor: %d\n"
      (by decide +kernel)) [.int 1] = some (registered.wrote lastLine) := by
    have hone : (numeral (Conv.d).base (1 : BitVec 32).toNat).map lettermap = ascii "1" := by
      decide +kernel
    rw [print_number "com port device descriptor: " "\n" .d (by decide +kernel)
      (by decide +kernel) (by decide +kernel), hone, hlastLine]
  refine ⟨registered.wrote lastLine, st, ?_, ?_, rfl, huart, hport, hread⟩
  · rw [kernelMain]
    change (cleared.print sym _ [.str banner]).bind _ = _
    rw [hbanner, Option.bind_some]
    change (pit8254Start d.pit 100).bind _ = _
    rw [hpit, Option.bind_some]
    change (timed.serialInit sym 0x3f8 (some device) malloc).bind _ = _
    rw [hserial, Option.bind_some]
    change (registered.print sym _ [.int 1]).bind _ = _
    rw [hlast]
    rfl
  · have hwritten : (registered.wrote lastLine).console =
        cleared.console.write (kernelText sym) := by
      have htimed : timed.console = cleared.console.write firstLines := rfl
      rw [wrote, hconsole, htimed, ← Console.write_append, ← Console.write_append, hlastLine,
        hfirstLines, kernelText]
      simp only [List.append_assoc]
    rw [hwritten, Console.display_write _ (isText_kernelText sym)]

end Devices

/-! ## The loop -/

theorem isText_receivedEof : ∀ c ∈ receivedEof.bytes, IsText c :=
  (isText_ascii (by decide +kernel)).1

/-- The byte that the loop has in hand at a task, if any. -/
def EchoTask.Holds (task : EchoTask) (rx : List (BitVec 8)) (last : Option (BitVec 8)) : Prop :=
  match task with
  | .call | .poll => last = none
  | .fetch => last = none ∧ rx ≠ []
  | .got c => ∃ b, last = some b ∧ c = serialChar b
  | .finished => ∃ b, last = some b ∧ endsInput b = true

/-- A byte that waits stays. -/
theorem EchoTask.Holds.mono {task : EchoTask} {rx rx' : List (BitVec 8)}
    {last : Option (BitVec 8)} (h : task.Holds rx last) (hrx : rx ≠ [] → rx' ≠ []) :
    task.Holds rx' last := by
  cases task with
  | fetch => exact ⟨h.1, hrx h.2⟩
  | call | poll | got | finished => exact h

/-- What every step of the loop and the line keeps: what came in is what is on the screen, the
byte in hand, and what waits. -/
structure Echoing.Kept (e : Echoing) (port : BitVec 16) (before : List (BitVec 8))
    (con : Console) (read : List (BitVec 8)) (last : Option (BitVec 8)) : Prop where
  works : e.uart.Works
  base : e.uart.base = port
  taken : e.uart.taken = before ++ (read ++ (last.toList ++ e.uart.rx))
  /-- nothing that was put on the screen ends the loop -/
  plain : ∀ b ∈ read, endsInput b = false
  holds : e.task.Holds e.uart.rx last
  console : e.console =
    if e.task = .finished then (con.echo read).write receivedEof.bytes else con.echo read

/-- How many steps it takes until no byte waits. -/
def Echoing.remaining (e : Echoing) : ℕ :=
  match e.task with
  | .call => 4 * e.uart.rx.length + 1
  | .poll => 4 * e.uart.rx.length
  | .fetch => 4 * e.uart.rx.length - 1
  | .got _ => 4 * e.uart.rx.length + 2
  | .finished => 0

/-- The bytes that arrived. -/
def arrivals (events : List SerialEvent) : List (BitVec 8) :=
  events.filterMap fun
    | .arrive b => some b
    | _ => none

/-- If no byte was lost, all that arrived came in. -/
structure Uart.AllTaken (u u' : Uart) (arrived : List (BitVec 8)) : Prop where
  lost : u.lost ≤ u'.lost
  taken : u'.lost = u.lost → u'.taken = u.taken ++ arrived

theorem Uart.AllTaken.trans {u u' u'' : Uart} {arrived more : List (BitVec 8)}
    (h : u.AllTaken u' arrived) (h' : u'.AllTaken u'' more) :
    u.AllTaken u'' (arrived ++ more) := by
  refine ⟨h.lost.trans h'.lost, fun hsame => ?_⟩
  have hfirst : u'.lost = u.lost := le_antisymm (h'.lost.trans hsame.le) h.lost
  rw [h'.taken (hsame.trans hfirst.symm), h.taken hfirst, List.append_assoc]

section

variable (buffer : ℕ → BitVec 8) (chrdev : Chrdev) {port : BitVec 16} (dd : BitVec 32)
  {device : ℕ} {before : List (BitVec 8)} {con : Console} {read : List (BitVec 8)}
  {last : Option (BitVec 8)} {e e' : Echoing} {event : SerialEvent}

namespace Echoing.Kept

/-- The call of the device's function. -/
theorem call (h : e.Kept port before con read last) (htask : e.task = .call)
    (hread : readDeviceChar chrdev dd = .called device serialReadChar []) :
    e.step buffer chrdev port dd = some { e with task := .poll } ∧
      Kept { e with task := .poll } port before con read last := by
  obtain ⟨task, uart, console⟩ := e
  obtain rfl : task = .call := htask
  refine ⟨?_, h.works, h.base, h.taken, h.plain, h.holds, h.console⟩
  rw [step, hread]
  exact if_pos rfl

/-- The question whether a byte waits. -/
theorem poll (h : e.Kept port before con read last) (htask : e.task = .poll) :
    ∃ e', e.step buffer chrdev port dd = some e' ∧ e'.Kept port before con read last ∧
      e'.task = (if e.uart.rx = [] then .poll else .fetch) ∧
      e'.uart = { e.uart with overrun := false } := by
  obtain ⟨task, uart, console⟩ := e
  obtain rfl : task = .poll := htask
  obtain ⟨hstatus, hworks⟩ := h.works.inportb_status h.base
  have hstep : step buffer chrdev port dd ⟨.poll, uart, console⟩ =
      some ⟨if uart.lineStatus &&& 1 = 0 then .poll else .fetch, { uart with overrun := false },
        console⟩ := by
    rw [step]
    dsimp only at hstatus ⊢
    rw [hstatus]
  have hready := uart.lineStatus_ready
  by_cases hrx : uart.rx = []
  · rw [if_pos (hready.mpr hrx)] at hstep
    exact ⟨_, hstep, ⟨hworks, h.base, h.taken, h.plain, h.holds, h.console⟩, (if_pos hrx).symm,
      rfl⟩
  · rw [if_neg (mt hready.mp hrx)] at hstep
    exact ⟨_, hstep, ⟨hworks, h.base, h.taken, h.plain, ⟨h.holds, hrx⟩, h.console⟩,
      (if_neg hrx).symm, rfl⟩

/-- The byte is read. -/
theorem fetch (h : e.Kept port before con read last) (htask : e.task = .fetch)
    {b : BitVec 8} {rx : List (BitVec 8)} (hrx : e.uart.rx = b :: rx) :
    ∃ e', e.step buffer chrdev port dd = some e' ∧ e'.Kept port before con read (some b) ∧
      e'.task = .got (serialChar b) ∧ e'.uart = { e.uart with rx := rx } := by
  obtain ⟨task, uart, console⟩ := e
  obtain rfl : task = .fetch := htask
  obtain ⟨hdata, hworks⟩ := h.works.inportb_data h.base hrx
  obtain ⟨rfl, -⟩ := h.holds
  refine ⟨⟨.got (serialChar b), { uart with rx := rx }, console⟩, ?_,
    ⟨hworks, h.base, ?_, h.plain, ⟨b, rfl, rfl⟩, h.console⟩, rfl, rfl⟩
  · rw [step]
    dsimp only at hdata ⊢
    rw [hdata]
  · have htaken := h.taken
    dsimp only at hrx htaken ⊢
    rw [htaken, hrx]
    rfl

/-- The byte is put on the screen. -/
theorem put (h : e.Kept port before con read last) {c : BitVec 32} (htask : e.task = .got c)
    {b : BitVec 8} (hlast : last = some b) (hplain : endsInput b = false) :
    ∃ e', e.step buffer chrdev port dd = some e' ∧
      e'.Kept port before con (read ++ [b]) none ∧ e'.task = .call ∧ e'.uart = e.uart := by
  obtain ⟨task, uart, console⟩ := e
  obtain rfl : task = .got c := htask
  obtain ⟨b', hb', hc⟩ := h.holds
  obtain rfl : b = b' := Option.some.inj (hlast.symm.trans hb')
  have hne : c ≠ -1 := by
    rw [hc, Ne, serialChar_eq_eof_iff, hplain]
    exact Bool.false_ne_true
  refine ⟨⟨.call, uart, (putchar console c).2⟩, if_pos hne, ⟨h.works, h.base, ?_, ?_, rfl, ?_⟩,
    rfl, rfl⟩
  · have htaken := h.taken
    rw [hlast] at htaken
    simpa using htaken
  · intro b' hb'
    rcases List.mem_append.mp hb' with hmem | hmem
    · exact h.plain b' hmem
    · rw [List.mem_singleton.mp hmem]
      exact hplain
  · have hconsole := h.console
    simp only [reduceCtorEq, if_false] at hconsole ⊢
    rw [hconsole, Console.echo, Console.echo, List.foldl_append, hc]
    rfl

/-- The loop ends. -/
theorem finish (h : e.Kept port before con read last) {c : BitVec 32} (htask : e.task = .got c)
    {b : BitVec 8} (hlast : last = some b) (hends : endsInput b = true) :
    ∃ e', e.step buffer chrdev port dd = some e' ∧ e'.Kept port before con read last ∧
      e'.task = .finished ∧ e'.uart = e.uart := by
  obtain ⟨task, uart, console⟩ := e
  obtain rfl : task = .got c := htask
  obtain ⟨b', hb', hc⟩ := h.holds
  obtain rfl : b = b' := Option.some.inj (hlast.symm.trans hb')
  have heq : ¬ c ≠ -1 := not_not.mpr (hc.trans ((serialChar_eq_eof_iff b).mpr hends))
  obtain ⟨count, hprintf⟩ : ∃ count, printf buffer console receivedEof [] =
      some (count, console.write receivedEof.bytes) :=
    printf_literal buffer "Received EOF from input stream\n" (by decide +kernel) rfl console
  refine ⟨⟨.finished, uart, console.write receivedEof.bytes⟩, ?_,
    ⟨h.works, h.base, h.taken, h.plain, ⟨b, hlast, hends⟩, ?_⟩, rfl, rfl⟩
  · rw [step]
    dsimp only
    rw [if_neg heq, hprintf]
    rfl
  · have hconsole := h.console
    simp only [reduceCtorEq, if_false, if_true] at hconsole ⊢
    rw [hconsole]

/-- A step of the loop, until it is over. -/
theorem driver (h : e.Kept port before con read last) (htask : e.task ≠ .finished)
    (hread : readDeviceChar chrdev dd = .called device serialReadChar []) :
    ∃ e' read' last', e.step buffer chrdev port dd = some e' ∧
      e'.Kept port before con read' last' ∧
      e'.uart.taken = e.uart.taken ∧ e'.uart.lost = e.uart.lost ∧
      (e.remaining ≠ 0 → e'.remaining < e.remaining) := by
  have hholds := h.holds
  cases ht : e.task with
  | call =>
    obtain ⟨hs', hkept⟩ := h.call buffer chrdev dd ht hread
    refine ⟨_, read, last, hs', hkept, rfl, rfl, fun _ => ?_⟩
    simp [remaining, ht]
  | poll =>
    obtain ⟨e', hs', hkept, htask', huart⟩ := h.poll buffer chrdev dd ht
    refine ⟨e', read, last, hs', hkept, by rw [huart], by rw [huart], fun hne => ?_⟩
    have hrx : e.uart.rx ≠ [] := by
      intro hrx
      simp [remaining, ht, hrx] at hne
    rw [if_neg hrx] at htask'
    have hlength := List.length_pos_iff.mpr hrx
    simp only [remaining, ht, htask', huart]
    omega
  | fetch =>
    rw [ht] at hholds
    obtain ⟨b, rx, hrx⟩ := List.exists_cons_of_ne_nil hholds.2
    obtain ⟨e', hs', hkept, htask', huart⟩ := h.fetch buffer chrdev dd ht hrx
    refine ⟨e', read, some b, hs', hkept, by rw [huart], by rw [huart], fun _ => ?_⟩
    simp only [remaining, ht, htask', huart, hrx, List.length_cons]
    omega
  | got c =>
    rw [ht] at hholds
    obtain ⟨b, hlast, -⟩ := hholds
    cases hends : endsInput b with
    | true =>
      obtain ⟨e', hs', hkept, htask', huart⟩ := h.finish buffer chrdev dd ht hlast
        hends
      refine ⟨e', read, last, hs', hkept, by rw [huart], by rw [huart], fun _ => ?_⟩
      simp [remaining, ht, htask']
    | false =>
      obtain ⟨e', hs', hkept, htask', huart⟩ := h.put buffer chrdev dd ht hlast
        hends
      refine ⟨e', read ++ [b], none, hs', hkept, by rw [huart], by rw [huart], fun _ => ?_⟩
      simp [remaining, ht, htask', huart]
  | finished => exact absurd ht htask

variable {buffer chrdev dd}

/-- Every step of the loop or the line. -/
theorem step (h : e.Kept port before con read last)
    (hread : readDeviceChar chrdev dd = .called device serialReadChar [])
    (hstep : Echoes buffer chrdev port dd e event e') :
    (∃ read' last', e'.Kept port before con read' last') ∧
      e.uart.AllTaken e'.uart (arrivals [event]) := by
  cases hstep with
  | driver hs =>
    have htask : e.task ≠ .finished := by
      intro htask
      rw [Echoing.step, htask] at hs
      cases hs
    obtain ⟨e'', read', last', hs', hkept, htaken, hlost, -⟩ :=
      h.driver buffer chrdev dd htask hread
    obtain rfl := Option.some.inj (hs.symm.trans hs')
    exact ⟨⟨read', last', hkept⟩, hlost.ge, fun _ => htaken.trans (by simp [arrivals])⟩
  | arrive b =>
    have harrive := h.works.arrive_eq b
    have htaken := h.taken
    have hrx : e.uart.rx ≠ [] → (e.uart.arrive b).rx ≠ [] := by
      rw [harrive]
      split <;> simp
    refine ⟨⟨read, last, h.works.arrive b, ?_, ?_, h.plain, h.holds.mono hrx, h.console⟩, ?_⟩
    · rw [harrive]
      split <;> exact h.base
    · rw [harrive]
      split
      · simp [htaken]
      · exact htaken
    · dsimp only
      rw [harrive]
      split
      · exact ⟨le_rfl, fun _ => rfl⟩
      · exact ⟨Nat.le_succ _, fun hsame => absurd hsame (Nat.succ_ne_self _)⟩
  | depart =>
    have hdepart := h.works.depart_eq
    refine ⟨⟨read, last, h.works.depart, ?_, ?_, h.plain, ?_, h.console⟩, ?_⟩
    · rw [hdepart]
      exact h.base
    · rw [hdepart]
      exact h.taken
    · rw [hdepart]
      exact h.holds
    · dsimp only
      rw [hdepart]
      exact ⟨le_rfl, fun _ => by simp [arrivals]⟩

/-- The loop gets through with the bytes that wait, or is over; nothing comes in or is lost by
its own accesses. -/
theorem drains (h : e.Kept port before con read last)
    (hread : readDeviceChar chrdev dd = .called device serialReadChar []) :
    ∃ more e', Traces (Echoes buffer chrdev port dd) e more e' ∧
      (∀ event ∈ more, event = .driver) ∧ more.length ≤ 4 * e.uart.rx.length + 2 ∧
      e'.uart.taken = e.uart.taken ∧ e'.uart.lost = e.uart.lost ∧
      (e'.task = .finished ∨ e'.task = .poll ∧ e'.uart.rx = []) := by
  have hbound : e.remaining ≤ 4 * e.uart.rx.length + 2 := by
    rw [remaining]
    split <;> omega
  have hstep : ∀ {e₁ : Echoing}, ((∃ read last, e₁.Kept port before con read last) ∧
      e₁.uart.taken = e.uart.taken ∧ e₁.uart.lost = e.uart.lost) →
      e₁.remaining ≠ 0 → ∃ event e', event = SerialEvent.driver ∧
        Echoes buffer chrdev port dd e₁ event e' ∧
        ((∃ read last, e'.Kept port before con read last) ∧
          e'.uart.taken = e.uart.taken ∧ e'.uart.lost = e.uart.lost) ∧
        e'.remaining < e₁.remaining := by
    intro e₁ hkept hmore
    obtain ⟨⟨read, last, hkept⟩, htaken, hlost⟩ := hkept
    have htask : e₁.task ≠ .finished := by
      intro htask
      simp [remaining, htask] at hmore
    obtain ⟨e', read', last', hs', hkept', htaken', hlost', hless⟩ :=
      hkept.driver buffer chrdev dd htask hread
    exact ⟨.driver, e', rfl, .driver hs',
      ⟨⟨read', last', hkept'⟩, htaken'.trans htaken, hlost'.trans hlost⟩, hless hmore⟩
  obtain ⟨more, e', hrun, hevents, hlength, ⟨⟨read', last', hkept⟩, htaken, hlost⟩, hdone⟩ :=
    Traces.descend _ Echoing.remaining _ hstep ⟨⟨read, last, h⟩, rfl, rfl⟩
  refine ⟨more, e', hrun, hevents, hlength.trans hbound, htaken, hlost, ?_⟩
  have hholds := hkept.holds
  cases htask : e'.task with
  | finished => exact .inl rfl
  | poll =>
    simp only [remaining, htask] at hdone
    exact .inr ⟨rfl, List.length_eq_zero_iff.mp (by omega)⟩
  | fetch =>
    rw [htask] at hholds
    have hlength := List.length_pos_iff.mpr hholds.2
    simp only [remaining, htask] at hdone
    omega
  | call | got => simp [remaining, htask] at hdone

/-- The screen, if it was cleared before the first text. -/
theorem screen (h : e.Kept port before con read last) {text : List (BitVec 8)} {st : Display}
    (htext : ∀ c ∈ text, IsText c)
    (hcon : con.display = text.foldl Display.writeChar (displayClear st))
    (htyped : ∀ b ∈ read, IsTyped b) :
    e.console.display.ShowsText (layout (text ++ (read.map newlineOf ++
        if e.task = .finished then receivedEof.bytes else []))) ∧
      e.console.display.Coloured st.colorAttrib := by
  obtain ⟨shown, hshown⟩ : ∃ shown, shown = text ++ (read.map newlineOf ++
      if e.task = .finished then receivedEof.bytes else []) := ⟨_, rfl⟩
  have hecho : (con.echo read).display =
      (text ++ read.map newlineOf).foldl Display.writeChar (displayClear st) := by
    rw [display_echo con htyped, hcon, List.foldl_append]
  have hisText : ∀ c ∈ shown, IsText c := by
    rw [hshown, List.forall_mem_append, List.forall_mem_append, List.forall_mem_map]
    refine ⟨htext, fun b hb => isText_newlineOf (htyped b hb), ?_⟩
    split
    · exact isText_receivedEof
    · simp
  have hdisplay : e.console.display =
      (Console.write { con with display := displayClear st } shown).display := by
    rw [Console.display_write _ hisText, hshown, h.console, ← List.append_assoc,
      List.foldl_append, ← hecho]
    split
    · exact Console.display_write _ isText_receivedEof
    · rfl
  rw [← hshown, hdisplay]
  exact ⟨Console.showsText_write (displayClear_blank _) hisText,
    Console.coloured_write (Display.Coloured.displayClear _) hisText⟩

end Echoing.Kept

end

/-- **What comes in at the serial port is what is on the screen.** The kernel comes to its loop
whatever the port, the screen and the timer were doing before, and then, whatever the line does:
each byte that the chip took is on the screen, in the driver's hand or waiting, in order; none that
is on the screen ends the loop, and a byte that does has ended it when it is over. If the chip lost
none, it took all that arrived. The loop gets through with what waits, and the screen shows the
kernel's own lines and what was typed, white on green.

By the invariant of the loop, which the line's events keep as well as the driver's accesses. A
character is read only when the chip says that one waits, so none is read twice; and it is on the
screen before the next one is asked for. -/
theorem kernel_main_echoes (sym : KernelSymbols) (d : Devices) (preserve attributes : BitVec 8)
    (device : ℕ) (malloc : MallocAnswer) (hcurrent : d.chrdev.currentInode = none)
    (hnumber : d.chrdev.currentInodeNumber = 1) (hbase : d.uart.base = 0x3f8) :
    ∃ d', d.kernelMain sym preserve attributes (some device) malloc = some (1, d') ∧
      ∀ events e, Traces (Echoes sym.buffer d'.chrdev d'.port 1)
          ⟨.call, d'.uart, d'.console⟩ events e →
        (∃ read last, e.Kept d'.port d.uart.taken d'.console read last ∧
          ((∀ b ∈ read, IsTyped b) →
            e.console.display.ShowsText (layout (kernelText sym ++ (read.map newlineOf ++
              if e.task = .finished then receivedEof.bytes else []))) ∧
            e.console.display.Coloured 0x2f)) ∧
        (e.uart.lost = d.uart.lost → e.uart.taken = d.uart.taken ++ arrivals events) ∧
        ∃ more e', Traces (Echoes sym.buffer d'.chrdev d'.port 1) e more e' ∧
          (∀ event ∈ more, event = .driver) ∧ more.length ≤ 4 * e.uart.rx.length + 2 ∧
          e'.uart.taken = e.uart.taken ∧ e'.uart.lost = e.uart.lost ∧
          (e'.task = .finished ∨ e'.task = .poll ∧ e'.uart.rx = []) := by
  obtain ⟨d', st, hmain, hdisplay, hcolor, huart, hport, hread⟩ :=
    d.kernelMain_eq sym hcurrent hnumber preserve attributes device malloc
  refine ⟨d', hmain, fun events e hrun => ?_⟩
  have hstart : d'.uart = initializeSerialDevice d.uart d.uart.base := by
    rw [huart, hbase]
  have hworks : d'.uart.Works := hstart ▸ works_initializeSerialDevice d.uart
  rw [initializeSerialDevice_eq] at hstart
  have hinit : Echoing.Kept ⟨.call, d'.uart, d'.console⟩ d'.port d.uart.taken d'.console []
      none := by
    refine ⟨hworks, ?_, ?_, by simp, rfl, rfl⟩
    · rw [hstart, hport]
      exact hbase
    · rw [hstart]
      simp
  obtain ⟨hkept, htaken⟩ := hrun.invariant
    (fun events e => (∃ read last, e.Kept d'.port d.uart.taken d'.console read last) ∧
      d'.uart.AllTaken e.uart (arrivals events))
    ⟨⟨[], none, hinit⟩, le_rfl, fun _ => by simp [arrivals]⟩ (by
      intro events event e e' hinv hstep
      obtain ⟨⟨read, last, hkept⟩, htaken⟩ := hinv
      obtain ⟨hkept', htaken'⟩ := hkept.step hread hstep
      refine ⟨hkept', ?_⟩
      rw [arrivals, List.filterMap_append]
      exact htaken.trans htaken')
  obtain ⟨read, last, hkept⟩ := hkept
  refine ⟨⟨read, last, hkept, fun htyped => ?_⟩, fun hlost => ?_, hkept.drains hread⟩
  · rw [← hcolor]
    exact hkept.screen (isText_kernelText sym) hdisplay htyped
  · have hall := htaken.taken
    rw [hstart] at hall
    exact hall hlost

/-- The statics at the start, and chips out of the box. -/
def Devices.atReset : Devices where
  cpu := .start default
  pit := ⟨0, 0, false, none, 0⟩
  uart := .fresh
  port := 0
  console := ⟨.start fun _ => 0, [], 0⟩
  chrdev := .start fun _ => ⟨0, 0, none, none⟩

/-- A character comes in, and the loop puts it on the screen. -/
theorem kernel_main_echoes_one :
    let sym : KernelSymbols := ⟨default, 0, 0, 0x00130000, fun _ => 0⟩
    ∃ d', Devices.atReset.kernelMain sym 0 0 (some 0) none = some (1, d') ∧
      ∃ more e', Traces (Echoes sym.buffer d'.chrdev d'.port 1)
          ⟨.call, d'.uart.arrive 0x41, d'.console⟩ more e' ∧
        (∀ event ∈ more, event = .driver) ∧ e'.task = .poll ∧
        e'.console.display.ShowsText (layout (kernelText sym ++ [0x41])) := by
  intro sym
  obtain ⟨d', hmain, hruns⟩ := kernel_main_echoes sym .atReset 0 0 0 none rfl rfl rfl
  obtain ⟨d'', -, hmain', -, -, huart, -⟩ :=
    Devices.atReset.kernelMain_eq sym rfl rfl 0 0 0 none
  obtain rfl : d' = d'' := (Prod.mk.inj (Option.some.inj (hmain.symm.trans hmain'))).2
  have harrive : (d'.uart.arrive 0x41).taken = [0x41] := by
    rw [huart]
    decide
  have hcame : Traces (Echoes sym.buffer d'.chrdev d'.port 1) ⟨.call, d'.uart, d'.console⟩
      [.arrive 0x41] ⟨.call, d'.uart.arrive 0x41, d'.console⟩ :=
    .single (.arrive ⟨.call, d'.uart, d'.console⟩ 0x41)
  obtain ⟨-, -, more, e', hmore, hdriver, -, htaken, -, hdone⟩ := hruns _ _ hcame
  obtain ⟨⟨read, last, hkept, hscreen⟩, -, -⟩ := hruns _ e' (hcame.append hmore)
  have hread := hkept.taken
  rw [htaken, harrive] at hread
  have hholds := hkept.holds
  obtain hfinished | ⟨hpoll, hrx⟩ := hdone
  · -- the loop is over only if the character is one that ends it
    rw [hfinished] at hholds
    obtain ⟨b, rfl, hends⟩ := hholds
    have hb : b ∈ [0x41] := hread ▸ by simp
    rw [List.mem_singleton.mp hb] at hends
    exact absurd hends (by decide)
  · rw [hpoll] at hholds
    obtain rfl : last = none := hholds
    obtain rfl : [0x41] = read := by simpa [hrx, Devices.atReset, Uart.fresh] using hread
    have hshown := (hscreen (by decide)).1
    rw [if_neg (by simp [hpoll])] at hshown
    exact ⟨d', hmain, more, e', hmore, hdriver, hpoll, hshown⟩

end MissyKernel
