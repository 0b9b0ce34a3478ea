import MissyKernel.Exceptions
import MissyKernel.ConsoleText

/-!
# What the exceptions show

The handlers are run here with the kernel's own `printf`, `puts` and display driver. A
handler that stops leaves its report alone on the screen; one that returns adds it to what
was there.

Every report has the vector in it, but for two: the handler of an absent device (7) pushes
the address of its number instead of the number, and the one of the security exception (30)
prints its message as the format. Of the non-maskable interrupt's messages the last cannot
appear, and the channel's bit is taken the wrong way round.

`ConsoleMachine` is a linked program whose C routines are the kernel's: `printf` takes its format
and its arguments off the stack and from the strings in memory, as the handlers push them. Only
then does it show that one handler pushes an address for a number. `Handler.stopText` and
`Handler.returnText` are the texts, as the code prints them.
-/

namespace MissyKernel

open Assembly

/-- The value that the file gives `int_ExceptionNumber` or `int_ErrorNumber`. -/
def Handler.number : Handler → BitVec 32
  | .defaulthandler => 0
  | .divbyzero => 0x0
  | .debugtrap => 0x01
  | .nmi => 0x02
  | .breakpoint => 0x03
  | .overflow => 0x04
  | .bounderror => 0x05
  | .badopcode => 0x06
  | .deviceerror => 0x07
  | .doublefault => 0x08
  | .invalidtss => 0x0a
  | .segnotpresent => 0x0b
  | .stacksegfault => 0x0c
  | .genprotectfault => 0x0d
  | .pagefault => 0x0e
  | .fpuexception => 0x10
  | .aligncheck => 0x11
  | .machinecheck => 0x12
  | .simdexception => 0x13
  | .virtualizeexception => 0x14
  | .securityexception => 0x1e

/-- The message of the file. -/
def Handler.message : Handler → String
  | .defaulthandler => "i386_defaulthandler called..."
  | .divbyzero => "Division by zero"
  | .debugtrap => "Debug Trap"
  | .nmi => "Non-maskable interrupt"
  | .breakpoint => "Breakpoint detected"
  | .overflow => "Overflow exception"
  | .bounderror => "Array index out of bounds"
  | .badopcode => "Bad opcode detected"
  | .deviceerror => "Floating-point instruction with no FPU present"
  | .doublefault => "CPU Double fault"
  | .invalidtss => "Invalid Task State Segment"
  | .segnotpresent => "Invalid segment / Segment not present"
  | .stacksegfault => "Stack Segment Error"
  | .genprotectfault => "General Protection Fault"
  | .pagefault => "Page Fault"
  | .fpuexception => "Floating point unit exception"
  | .aligncheck => "Alignment check: Unaligned address was accessed in user mode"
  | .machinecheck => "Machine Check"
  | .simdexception => "SIMD Floating Point Exception"
  | .virtualizeexception => "Virtualization Exception"
  | .securityexception => "Security Exception"

/-- The strings of the assembly files, but for those that the handlers begin with. -/
def otherStrings : List (AsmSymbol × String) :=
  [(.strSystemException, "[System Exception 0x%x]: %s\n\n"),
    (.strSystemMustHalt1, "\nAn irrecoverable system exception has occured. Your system has been"),
    (.strSystemMustHalt2,
      "shut down to prevent damage. Please power off and restart your machine."),
    (.strWatchdogTimer, "Kernel watchdog timer elapsed!"),
    (.strChannelError, "Memory channel error (errant device?)"),
    (.strParityError, "Parity error (memory failure?)"),
    (.strUnknownError, "Unknown NMI error..."),
    (.strGPFOther, "A non-segment error caused this fault"),
    (.strGPFGDTError, "A segment fault in the GDT caused this fault"),
    (.strGPFIDTError, "A segment fault in the IDT caused this fault"),
    (.strGPFLDTError, "A segment fault in the LDT caused this fault"),
    (.strGPFErrorCodeStr, "Error code: %d\n"),
    (.strPageNotPresentError, "The requested page was not present in system memory"),
    (.strPageProtectionError, "Access violation occurred on page"),
    (.strPageFaultOnRead, "The fault occurred during an attempt to read from the page"),
    (.strPageFaultOnWrite, "The fault occurred during an attempt to write to the page"),
    (.strPageFaultInUserMode, "The process was running in user mode"),
    (.strPageFaultInKernelMode, "The process was running in kernel mode"),
    (.strPageFaultOnReserved, "The page fault occured due to reserved field read"),
    (.strPageFaultInstruction, "The fault was caused on an instruction fetch"),
    (.strPageFaultAddr, "Fault Linear Address: 0x%x\n"),
    (.strPageFaultPage, "Fault in Page: 0x%x\n")]

/-- The strings of the assembly files, with the messages first. -/
def asmStrings : List (AsmSymbol × String) :=
  allHandlers.map (fun h => (.message h, h.message)) ++ otherStrings

/-- The arguments that `va_arg` takes from the stack, by the letters of the format. -/
def vaArgs (strings : BitVec 32 → Option CString) :
    List (BitVec 8) → List (BitVec 32) → List VaArg
  | 0x25#8 :: 0x25#8 :: fmt, stack => vaArgs strings fmt stack
  | 0x25#8 :: 0x73#8 :: fmt, w :: stack =>
    ((strings w).map VaArg.str).toList ++ vaArgs strings fmt stack
  | 0x25#8 :: _ :: fmt, w :: stack => .int w :: vaArgs strings fmt stack
  | _ :: fmt, stack => vaArgs strings fmt stack
  | [], _ => []

/-- The C routines, where the strings are in memory; what C leaves undefined does nothing. -/
def consoleRoutines (strings : BitVec 32 → Option CString) (buffer : ℕ → BitVec 8) :
    CRoutines Console where
  printf := fun stack con =>
    match (strings (stack.headD 0)).bind fun fmt =>
      printf buffer con fmt (vaArgs strings fmt.bytes stack.tail) with
    | some (n, con) => (BitVec.ofInt 32 n, con)
    | none => (0, con)
  puts := fun address con =>
    match strings address with
    | some str => (BitVec.ofInt 32 (puts con str).1, (puts con str).2)
    | none => (0, con)
  displayChangeColor := fun color con =>
    let (old, display) := displayChangeColor con.display (color.setWidth 8)
    (old.setWidth 32, { con with display := display })
  displayClear := fun con => (0, { con with display := displayClear con.display })

/-- The files are linked with these routines, the strings are where their symbols are, and
the ports hold these values. -/
structure ConsoleMachine (p : Program AsmSymbol Console) (strings : BitVec 32 → Option CString)
    (buffer : ℕ → BitVec 8) (ports : BitVec 16 → BitVec 8) : Prop where
  linked : Linked p (consoleRoutines strings buffer)
  strings : ∀ e ∈ asmStrings, ∃ str, strings (p.address e.1) = some str ∧ str.bytes = ascii e.2
  input : ∀ port con, p.input port con = (ports port, con)

/-! ## The texts -/

/-- The report of a number and a message. -/
def reportText (n : BitVec 32) (message : String) : List (BitVec 8) :=
  ascii "[System Exception 0x" ++ (hexText n ++ (ascii "]: " ++ (ascii message ++ ascii "\n\n")))

/-- A line of its own. -/
def lineText (message : String) : List (BitVec 8) := ascii message ++ ascii "\n"

/-- The farewell of `i386_system_stop`. -/
def systemStopText : List (BitVec 8) :=
  lineText "\nAn irrecoverable system exception has occured. Your system has been" ++
    lineText "shut down to prevent damage. Please power off and restart your machine."

/-- What the handler of the non-maskable interrupt adds, by the ports `0x92` and `0x61`. -/
def nmiText (ports : BitVec 16 → BitVec 8) : List (BitVec 8) :=
  if ports 0x92 &&& 0x10 = 0 then
    if ports 0x61 &&& 0x40 = 0 then lineText "Memory channel error (errant device?)"
    else lineText "Parity error (memory failure?)"
  else lineText "Kernel watchdog timer elapsed!"

/-- What the handler of the page fault adds. -/
def pagefaultText (address code : BitVec 32) : List (BitVec 8) :=
  (ascii "Fault Linear Address: 0x" ++ (hexText address ++ ascii "\n")) ++
  ((ascii "Fault in Page: 0x" ++ (hexText (address &&& 0xfffff000) ++ ascii "\n")) ++
  ((if code &&& 0x01 = 0 then lineText "The requested page was not present in system memory"
    else lineText "Access violation occurred on page") ++
  ((if code &&& 0x02 = 0 then
      lineText "The fault occurred during an attempt to read from the page"
    else lineText "The fault occurred during an attempt to write to the page") ++
  ((if code &&& 0x04 = 0 then lineText "The process was running in kernel mode"
    else lineText "The process was running in user mode") ++
  ((if code &&& 0x08 = 0 then []
    else lineText "The page fault occured due to reserved field read") ++
  if code &&& 0x10 = 0 then []
  else lineText "The fault was caused on an instruction fetch")))))

/-- What the handler of the general protection fault adds: the `LDT` is never named. -/
def genprotectfaultText (code : BitVec 32) : List (BitVec 8) :=
  (if code &&& 0x02 = 0 then lineText "A segment fault in the GDT caused this fault"
    else lineText "A segment fault in the IDT caused this fault") ++
  (ascii "Error code: " ++ ((numeral 10 code.toNat).map lettermap ++ ascii "\n"))

/-- The text of a handler that stops. -/
def Handler.stopText (h : Handler) (p : Program AsmSymbol Console)
    (ports : BitVec 16 → BitVec 8) (address code : BitVec 32) : List (BitVec 8) :=
  (match h with
    | .securityexception => ascii "Security Exception"
    | .deviceerror => reportText (p.address (.number .deviceerror)) h.message
    | h => reportText h.number h.message) ++
  ((match h with
    | .nmi => nmiText ports
    | .pagefault => pagefaultText address code
    | _ => []) ++ systemStopText)

/-- The text of a handler that returns. -/
def Handler.returnText : Handler → List (BitVec 8)
  | .defaulthandler => lineText (Handler.message .defaulthandler)
  | h => reportText h.number h.message

/-- All strings are short texts. -/
theorem isShortText_asmStrings : asmStrings.all (fun e => isShortText e.2) = true := by
  decide +kernel

theorem mem_message (h : Handler) : (.message h, h.message) ∈ asmStrings :=
  List.mem_append_left _ (List.mem_map_of_mem (mem_allHandlers h))

theorem isText_asmStrings {e : AsmSymbol × String} (he : e ∈ asmStrings) :
    (∀ c ∈ ascii e.2, IsText c) ∧ (ascii e.2).length ≤ 500 :=
  isText_ascii (List.all_eq_true.mp isShortText_asmStrings e he)

/-- A report is not empty. -/
theorem length_reportText_ne_zero (n : BitVec 32) (h : Handler) :
    BitVec.ofInt 32 (reportText n h.message).length ≠ 0 := by
  have hmessage := (isText_asmStrings (mem_message h)).2
  have hdigits : (hexText n).length ≤ 32 := (isText_numeral .x n).2
  have hbefore : (ascii "[System Exception 0x").length = 20 := by decide +kernel
  have hbetween : (ascii "]: ").length = 3 := by decide +kernel
  have hafter : (ascii "\n\n").length = 2 := by decide +kernel
  intro hzero
  have htoNat := congrArg BitVec.toNat hzero
  dsimp only at hmessage
  rw [BitVec.ofInt_natCast, BitVec.toNat_ofNat] at htoNat
  simp only [reportText, List.length_append, hbefore, hbetween, hafter] at htoNat
  have hsmall : 20 + ((hexText n).length + (3 + ((ascii h.message).length + 2))) <
      2 ^ 32 := by omega
  rw [Nat.mod_eq_of_lt hsmall] at htoNat
  simp at htoNat

namespace ConsoleMachine

variable {p : Program AsmSymbol Console} {strings : BitVec 32 → Option CString}
  {buffer : ℕ → BitVec 8} {ports : BitVec 16 → BitVec 8}

theorem puts_eq (hp : ConsoleMachine p strings buffer ports) {s : AsmSymbol} (text : String)
    (hs : (s, text) ∈ asmStrings) (con : Console) :
    ((consoleRoutines strings buffer).puts (p.address s) con).2 = con.write (lineText text) := by
  obtain ⟨str, hstr, hbytes⟩ := hp.strings _ hs
  rw [consoleRoutines]
  dsimp only at hstr hbytes ⊢
  rw [hstr]
  dsimp only
  rw [MissyKernel.puts_eq, hbytes]
  rfl

theorem printf_eq (hp : ConsoleMachine p strings buffer ports) {s : AsmSymbol} (text : String)
    (hs : (s, text) ∈ asmStrings) (pieces : List Piece) {stack : List (BitVec 32)}
    (hfmt : ascii text = formatOf pieces)
    (hargs : vaArgs strings (ascii text) stack = argsOf pieces)
    (htext : ∀ c ∈ pieces.flatMap Piece.text, IsText c)
    (hfits : (pieces.flatMap Piece.text).length ≤ 3000) (con : Console) :
    (consoleRoutines strings buffer).printf (p.address s :: stack) con =
      (BitVec.ofInt 32 (pieces.flatMap Piece.text).length,
        con.write (pieces.flatMap Piece.text)) := by
  obtain ⟨str, hstr, hbytes⟩ := hp.strings _ hs
  have hprintf : printf buffer con str (vaArgs strings str.bytes stack) =
      some (((pieces.flatMap Piece.text).length : ℤ), con.write (pieces.flatMap Piece.text)) :=
    printf_texts pieces (hbytes.trans hfmt) (by rw [hbytes]; exact hargs) htext (by omega) con
  rw [consoleRoutines]
  dsimp only [List.headD_cons, List.tail_cons] at hstr ⊢
  rw [hstr, Option.bind_some, hprintf]

/-- A format with one number. -/
theorem printf_number (hp : ConsoleMachine p strings buffer ports) {s : AsmSymbol}
    (text before after : String) (hs : (s, text) ∈ asmStrings) (conv : Conv)
    (hbefore : isLiteral before = true) (hafter : isLiteral after = true)
    (hfmt : ascii text = ascii before ++ (0x25 :: conv.letter :: ascii after)) (n : BitVec 32)
    (saved : List (BitVec 32)) (con : Console)
    (hargs : vaArgs strings (ascii text) (n :: saved) = [.int n]) :
    ((consoleRoutines strings buffer).printf (p.address s :: n :: saved) con).2 =
      con.write (ascii before ++ ((numeral conv.base n.toNat).map lettermap ++ ascii after)) := by
  obtain ⟨str, hstr, hbytes⟩ := hp.strings _ hs
  obtain ⟨count, hprintf⟩ := MissyKernel.printf_number buffer before after conv
    hbefore hafter (hbytes.trans hfmt) n con
  rw [consoleRoutines]
  dsimp only [List.headD_cons, List.tail_cons] at hstr hbytes ⊢
  rw [hstr, Option.bind_some, hbytes, hargs, hprintf]

/-- The report that all handlers but one begin with. -/
theorem printf_report (hp : ConsoleMachine p strings buffer ports) (h : Handler) (n : BitVec 32)
    (saved : List (BitVec 32)) (con : Console) :
    (consoleRoutines strings buffer).printf
        (p.address .strSystemException :: n :: p.address (.message h) :: saved) con =
      (BitVec.ofInt 32 (reportText n h.message).length, con.write (reportText n h.message)) := by
  obtain ⟨str, hstr, hbytes⟩ := hp.strings _ (mem_message h)
  dsimp only at hstr hbytes
  have hfirst : isLiteral "[System Exception 0x" = true := by decide +kernel
  have hsecond : isLiteral "]: " = true := by decide +kernel
  have hlast : isLiteral "\n\n" = true := by decide +kernel
  let pieces := literals (ascii "[System Exception 0x") (ne_percent_of_isLiteral hfirst) ++
    (.number .x n :: (literals (ascii "]: ") (ne_percent_of_isLiteral hsecond) ++
      (.string str :: literals (ascii "\n\n") (ne_percent_of_isLiteral hlast))))
  have hpieces : pieces.flatMap Piece.text = reportText n h.message := by
    simp [pieces, Piece.text, reportText, hexText, hbytes]
    rfl
  have hnumber := isText_numeral .x n
  have hmessage := isText_asmStrings (mem_message h)
  have hfirst' := isText_ascii (Bool.and_eq_true_iff.mp hfirst).1
  have hsecond' := isText_ascii (Bool.and_eq_true_iff.mp hsecond).1
  have hlast' := isText_ascii (Bool.and_eq_true_iff.mp hlast).1
  rw [← hpieces]
  refine hp.printf_eq "[System Exception 0x%x]: %s\n\n" (by decide +kernel) pieces ?_ ?_ ?_ ?_ con
  · simp only [pieces, formatOf_append, formatOf_cons, formatOf_literals, Piece.spelling]
    decide +kernel
  · simp only [pieces, argsOf_append, argsOf_cons, argsOf_literals, Piece.args]
    have hargs : vaArgs strings (ascii "[System Exception 0x%x]: %s\n\n")
        (n :: p.address (.message h) :: saved) =
          .int n :: (((strings (p.address (.message h))).map VaArg.str).toList ++ []) := rfl
    rw [hargs, hstr]
    rfl
  · rw [hpieces, reportText]
    intro c hc
    simp only [List.mem_append] at hc
    rcases hc with hc | hc | hc | hc | hc
    · exact hfirst'.1 c hc
    · exact hnumber.1 c hc
    · exact hsecond'.1 c hc
    · exact hmessage.1 c hc
    · exact hlast'.1 c hc
  · have hdigits : (hexText n).length ≤ 32 := hnumber.2
    have hlength := hmessage.2
    dsimp only at hlength
    rw [hpieces, reportText]
    simp only [List.length_append]
    omega

theorem systemStop_eq (hp : ConsoleMachine p strings buffer ports) (con : Console) :
    (consoleRoutines strings buffer).systemStop p con = con.write systemStopText := by
  rw [CRoutines.systemStop,
    hp.puts_eq "shut down to prevent damage. Please power off and restart your machine."
      (by decide +kernel),
    hp.puts_eq "\nAn irrecoverable system exception has occured. Your system has been"
      (by decide +kernel), systemStopText, Console.write_append]

/-- One of two lines. -/
theorem puts_choice (hp : ConsoleMachine p strings buffer ports) {clear set : AsmSymbol}
    (text text' : String) (hclear : (clear, text) ∈ asmStrings) (hset : (set, text') ∈ asmStrings)
    (b : Prop) [Decidable b] (con : Console) :
    ((consoleRoutines strings buffer).puts (p.address (if b then clear else set)) con).2 =
      con.write (if b then lineText text else lineText text') := by
  split
  · exact hp.puts_eq text hclear con
  · exact hp.puts_eq text' hset con

/-- A line or none. -/
theorem puts_option (hp : ConsoleMachine p strings buffer ports) {s : AsmSymbol} (text : String)
    (hs : (s, text) ∈ asmStrings) (b : Prop) [Decidable b] (con : Console) :
    (if b then con else ((consoleRoutines strings buffer).puts (p.address s) con).2) =
      con.write (if b then [] else lineText text) := by
  split
  · rfl
  · exact hp.puts_eq text hs con

theorem nmi_eq (hp : ConsoleMachine p strings buffer ports) (con : Console) :
    (consoleRoutines strings buffer).nmi p con = con.write (nmiText ports) := by
  simp only [CRoutines.nmi, hp.input, nmiText]
  split
  · exact hp.puts_choice _ _ (by decide +kernel) (by decide +kernel) _ con
  · exact hp.puts_eq _ (by decide +kernel) con

theorem pagefault_eq (hp : ConsoleMachine p strings buffer ports) (address code : BitVec 32)
    (saved : List (BitVec 32)) (con : Console) :
    (consoleRoutines strings buffer).pagefault p address code saved con =
      con.write (pagefaultText address code) := by
  simp only [CRoutines.pagefault]
  -- from the last message to the first
  rw [hp.puts_option "The fault was caused on an instruction fetch" (by decide +kernel),
    hp.puts_option "The page fault occured due to reserved field read" (by decide +kernel),
    hp.puts_choice "The process was running in kernel mode" "The process was running in user mode"
      (by decide +kernel) (by decide +kernel),
    hp.puts_choice "The fault occurred during an attempt to read from the page"
      "The fault occurred during an attempt to write to the page" (by decide +kernel)
      (by decide +kernel),
    hp.puts_choice "The requested page was not present in system memory"
      "Access violation occurred on page" (by decide +kernel) (by decide +kernel),
    hp.printf_number "Fault in Page: 0x%x\n" "Fault in Page: 0x" "\n" (by decide +kernel) .x
      (by decide +kernel) (by decide +kernel) (by decide +kernel) (address &&& 0xfffff000) saved _
      rfl,
    hp.printf_number "Fault Linear Address: 0x%x\n" "Fault Linear Address: 0x" "\n"
      (by decide +kernel) .x (by decide +kernel) (by decide +kernel) (by decide +kernel) address
      saved con rfl]
  simp only [← Console.write_append, List.append_assoc]
  simp only [pagefaultText, hexText, List.append_assoc]
  rfl

theorem genprotectfault_eq (hp : ConsoleMachine p strings buffer ports) {printed : BitVec 32}
    (hprinted : printed ≠ 0) (code : BitVec 32) (saved : List (BitVec 32)) (con : Console) :
    (consoleRoutines strings buffer).genprotectfault p printed code saved con =
      con.write (genprotectfaultText code) := by
  rw [CRoutines.genprotectfault, if_neg hprinted,
    hp.puts_choice "A segment fault in the GDT caused this fault"
      "A segment fault in the IDT caused this fault" (by decide +kernel) (by decide +kernel),
    hp.printf_number "Error code: %d\n" "Error code: " "\n" (by decide +kernel) .d
      (by decide +kernel) (by decide +kernel) (by decide +kernel) code saved _ rfl,
    ← Console.write_append]
  rfl

/-! ## The handlers on the console -/

variable {d : Data AsmSymbol Console} {post : State AsmSymbol Console → Prop} {h : Handler}

theorem report_eq (hp : ConsoleMachine p strings buffer ports) (h : Handler) (n : BitVec 32)
    (saved : List (BitVec 32)) (con : Console) :
    (consoleRoutines strings buffer).report p .strSystemException n h saved con =
      con.write (reportText n h.message) := by
  rw [CRoutines.report, hp.printf_report]

/-- The security exception prints its message, and no number. -/
theorem report_security (hp : ConsoleMachine p strings buffer ports) (n : BitVec 32)
    (saved : List (BitVec 32)) (con : Console) :
    (consoleRoutines strings buffer).report p (.message .securityexception) n .securityexception
      saved con = con.write (ascii "Security Exception") := by
  have hliteral : isLiteral "Security Exception" = true := by decide +kernel
  have htext := isText_ascii (Bool.and_eq_true_iff.mp hliteral).1
  let pieces := literals (ascii "Security Exception") (ne_percent_of_isLiteral hliteral)
  have hpieces : pieces.flatMap Piece.text = ascii "Security Exception" := text_literals _
  rw [CRoutines.report, hp.printf_eq "Security Exception" (mem_message .securityexception) pieces
    (formatOf_literals _).symm (argsOf_literals (ne_percent_of_isLiteral hliteral)).symm ?_ ?_ con,
    hpieces]
  · rw [hpieces]
    exact htext.1
  · rw [hpieces]
    exact htext.2.trans (by decide)

theorem leads_stopText (hp : ConsoleMachine p strings buffer ports) (hstops : h.stops = true)
    (hnumber : d.vars (.number h) = h.number) {code : BitVec 32} {stack : List (BitVec 32)}
    (hstack : d.stack = code :: stack)
    (hpost : ∀ m, Stopped p m → m.data.world =
      ((consoleRoutines strings buffer).setDisp d.world).write
        (h.stopText p ports d.cr2 code) → post m) :
    p.Leads h.code d post := by
  have hplain : ∀ n m saved, Stopped p m →
      m.data.world = (consoleRoutines strings buffer).systemStop p
        ((consoleRoutines strings buffer).report p .strSystemException n h saved
          ((consoleRoutines strings buffer).setDisp d.world)) →
      h.stopText p ports d.cr2 code = reportText n h.message ++ ([] ++ systemStopText) →
      post m := by
    intro n m saved hm hworld htext
    refine hpost m hm ?_
    rw [hworld, hp.report_eq, hp.systemStop_eq, ← Console.write_append, htext]
    rfl
  cases h with
  | nmi =>
    refine hp.linked.leads_nmi fun m saved hm hworld => hpost m hm ?_
    rw [hworld, hnumber, hp.report_eq, hp.nmi_eq, hp.systemStop_eq, ← Console.write_append,
      ← Console.write_append]
    rfl
  | pagefault =>
    refine hp.linked.leads_pagefault hstack fun m saved hm hworld => hpost m hm ?_
    rw [hworld, hnumber, hp.report_eq, hp.pagefault_eq, hp.systemStop_eq, ← Console.write_append,
      ← Console.write_append]
    rfl
  | securityexception =>
    refine hp.linked.leads_reportAndStop (fun _ hvars => congrFun hvars _)
      fun m saved hm hworld => hpost m hm ?_
    rw [hworld, hp.report_security, hp.systemStop_eq, ← Console.write_append]
    rfl
  | deviceerror =>
    exact hp.linked.leads_reportAndStop (fun _ _ => rfl) fun m saved hm hworld =>
      hplain _ m saved hm hworld rfl
  | overflow | badopcode | doublefault | invalidtss | segnotpresent | stacksegfault
  | machinecheck | simdexception =>
    exact hp.linked.leads_reportAndStop (fun _ hvars => (congrFun hvars _).trans hnumber)
      fun m saved hm hworld => hplain _ m saved hm hworld rfl
  | defaulthandler | divbyzero | debugtrap | breakpoint | bounderror | genprotectfault
  | fpuexception | aligncheck | virtualizeexception => cases hstops

theorem leads_returnText (hp : ConsoleMachine p strings buffer ports) (hstops : h.stops = false)
    (hgpf : h ≠ .genprotectfault) (hnumber : d.vars (.number h) = h.number)
    {eip cs eflags : BitVec 32} {stack : List (BitVec 32)}
    (hstack : d.stack = eip :: cs :: eflags :: stack)
    (hpost : ∀ m, m.pc = eip → m.data.world = d.world.write h.returnText → post m) :
    p.Leads h.code d post := by
  cases h with
  | defaulthandler =>
    refine .op rfl ?_
    refine hp.linked.leads_puts _ fun d' hkeeps hworld => ?_
    refine Linked.leads_return hstack hkeeps (hpost _ rfl ?_)
    exact hworld.trans (hp.puts_eq _ (mem_message .defaulthandler) _)
  | genprotectfault => exact absurd rfl hgpf
  | divbyzero | debugtrap | breakpoint | bounderror | fpuexception | aligncheck
  | virtualizeexception =>
    refine hp.linked.leads_reportAndReturn _ hstack fun saved => hpost _ rfl ?_
    rw [hnumber]
    exact hp.report_eq _ _ saved _
  | nmi | overflow | badopcode | deviceerror | doublefault | invalidtss | segnotpresent
  | stacksegfault | pagefault | machinecheck | simdexception | securityexception => cases hstops

theorem leads_gpfText (hp : ConsoleMachine p strings buffer ports)
    (hnumber : d.vars (.number .genprotectfault) = 0x0d) {code eip cs eflags : BitVec 32}
    {stack : List (BitVec 32)} (hstack : d.stack = code :: eip :: cs :: eflags :: stack)
    (hpost : ∀ m, m.pc = d.regs .ecx → m.data.world =
      ((consoleRoutines strings buffer).setDisp d.world).write
        (reportText 0x0d (Handler.message .genprotectfault) ++ genprotectfaultText code) →
      post m) :
    p.Leads i386Genprotectfault d post := by
  refine hp.linked.leads_genprotectfault hstack fun m saved hpc _ _ _ hworld => hpost m hpc ?_
  dsimp only at hworld
  rw [hnumber, hp.printf_report] at hworld
  have hprinted := length_reportText_ne_zero 0x0d .genprotectfault
  rw [hworld, hp.genprotectfault_eq hprinted, Console.write_append]

end ConsoleMachine

/-! ## The screen -/

/-- The screen that a text is alone on, in white on red. -/
structure Display.ExceptionScreen (st : Display) (text : List (BitVec 8)) : Prop where
  /-- the text -/
  shows : st.ShowsText (layout text)
  /-- the colours -/
  coloured : st.Coloured 0x4f

theorem exceptionScreen_write {strings : BitVec 32 → Option CString} {buffer : ℕ → BitVec 8}
    {con : Console} {text : List (BitVec 8)} (htext : ∀ c ∈ text, IsText c) :
    (((consoleRoutines strings buffer).setDisp con).write text).display.ExceptionScreen text :=
  ⟨Console.showsText_write (displayClear_blank _) htext,
    Console.coloured_write (Display.Coloured.displayClear _) htext⟩

theorem isText_lineText (s : AsmSymbol) {text : String} (hs : (s, text) ∈ asmStrings) :
    ∀ c ∈ lineText text, IsText c := by
  rw [lineText, List.forall_mem_append]
  exact ⟨(isText_asmStrings hs).1, (isText_ascii (by decide +kernel)).1⟩

/-- One of two lines. -/
theorem isText_choice (s s' : AsmSymbol) {text text' : String} (hs : (s, text) ∈ asmStrings)
    (hs' : (s', text') ∈ asmStrings) (b : Prop) [Decidable b] :
    ∀ c ∈ if b then lineText text else lineText text', IsText c := by
  split
  · exact isText_lineText s hs
  · exact isText_lineText s' hs'

/-- A line or none. -/
theorem isText_option (s : AsmSymbol) {text : String} (hs : (s, text) ∈ asmStrings) (b : Prop)
    [Decidable b] : ∀ c ∈ if b then [] else lineText text, IsText c := by
  split
  · exact fun c hc => absurd hc List.not_mem_nil
  · exact isText_lineText s hs

theorem isText_reportText (n : BitVec 32) (h : Handler) :
    ∀ c ∈ reportText n h.message, IsText c := by
  simp only [reportText, List.forall_mem_append]
  exact ⟨(isText_ascii (by decide +kernel)).1, (isText_numeral .x n).1,
    (isText_ascii (by decide +kernel)).1, (isText_asmStrings (mem_message h)).1,
    (isText_ascii (by decide +kernel)).1⟩

theorem isText_systemStopText : ∀ c ∈ systemStopText, IsText c := by
  rw [systemStopText, List.forall_mem_append]
  exact ⟨isText_lineText .strSystemMustHalt1 (by decide +kernel),
    isText_lineText .strSystemMustHalt2 (by decide +kernel)⟩

theorem isText_nmiText (ports : BitVec 16 → BitVec 8) : ∀ c ∈ nmiText ports, IsText c := by
  rw [nmiText]
  split
  · exact isText_choice .strChannelError .strParityError (by decide +kernel) (by decide +kernel) _
  · exact isText_lineText .strWatchdogTimer (by decide +kernel)

theorem isText_pagefaultText (address code : BitVec 32) :
    ∀ c ∈ pagefaultText address code, IsText c := by
  have hnewline : ∀ c ∈ ascii "\n", IsText c := (isText_ascii (by decide +kernel)).1
  simp only [pagefaultText, List.forall_mem_append]
  refine ⟨⟨?_, (isText_numeral .x _).1, hnewline⟩, ⟨?_, (isText_numeral .x _).1, hnewline⟩,
    ?_, ?_, ?_, ?_, ?_⟩
  · exact (isText_ascii (by decide +kernel)).1
  · exact (isText_ascii (by decide +kernel)).1
  · exact isText_choice .strPageNotPresentError .strPageProtectionError (by decide +kernel)
      (by decide +kernel) _
  · exact isText_choice .strPageFaultOnRead .strPageFaultOnWrite (by decide +kernel)
      (by decide +kernel) _
  · exact isText_choice .strPageFaultInKernelMode .strPageFaultInUserMode (by decide +kernel)
      (by decide +kernel) _
  · exact isText_option .strPageFaultOnReserved (by decide +kernel) _
  · exact isText_option .strPageFaultInstruction (by decide +kernel) _

theorem isText_genprotectfaultText (code : BitVec 32) :
    ∀ c ∈ genprotectfaultText code, IsText c := by
  simp only [genprotectfaultText, List.forall_mem_append]
  refine ⟨?_, (isText_ascii (by decide +kernel)).1, (isText_numeral .d code).1,
    (isText_ascii (by decide +kernel)).1⟩
  exact isText_choice .strGPFGDTError .strGPFIDTError (by decide +kernel) (by decide +kernel) _

theorem isText_stopText (h : Handler) (p : Program AsmSymbol Console)
    (ports : BitVec 16 → BitVec 8) (address code : BitVec 32) :
    ∀ c ∈ h.stopText p ports address code, IsText c := by
  simp only [Handler.stopText, List.forall_mem_append]
  refine ⟨?_, ?_, isText_systemStopText⟩
  · split
    · exact (isText_asmStrings (mem_message .securityexception)).1
    · exact isText_reportText _ .deviceerror
    · exact isText_reportText _ h
  · split
    · exact isText_nmiText ports
    · exact isText_pagefaultText address code
    · exact fun c hc => absurd hc List.not_mem_nil

/-- **What every exception shows.** Whatever was on the screen: behind a vector whose handler
stops, the screen is white on red and has the handler's text, the farewell behind it, and nothing
else. The general protection fault leaves such a screen too, with no farewell, and goes on. Every
other handler adds its report to what is there.

The outcome of the handlers is taken over from `Exceptions`, with the console as the world that the
routines act on; every string is a text without control characters but the newline, so the
terminal's layout applies. -/
theorem exception_screen (p : Program AsmSymbol Console) (strings : BitVec 32 → Option CString)
    (buffer : ℕ → BitVec 8) (ports : BitVec 16 → BitVec 8)
    (hp : ConsoleMachine p strings buffer ports) (interrupts : BitVec 32) (cpu : Cpu)
    (calls : List InstallCall)
    (hcalls : ∀ call ∈ calls, call.irq ≠ 224 ∧ call.irq.toNat < 2 ^ 32 - 32)
    (m : State AsmSymbol Console) (hnumber : ∀ h, m.data.vars (.number h) = h.number)
    (v : ℕ) (hv : v < 32) (code : Option (BitVec 32)) (hcode : code.isSome = pushesErrorCode v) :
    let gate := (calls.foldl cpuInstallDevice
      (cpuDriverInit (asmSymbols p interrupts) cpu)).interrupts v
    let entered := m.interrupt code (gate.selector.setWidth 32) gate.offset
    (v ∈ stoppingVectors → ∃ m', p.Reaches entered m' ∧ Stopped p m' ∧
      m'.data.world.display.ExceptionScreen
        ((handlerOf v).stopText p ports m.data.cr2 (code.getD m.pc))) ∧
    (v = 13 → ∃ m', p.Reaches entered m' ∧ m'.pc = m.data.regs .ecx ∧
      m'.data.world.display.ExceptionScreen
        (reportText 13 "General Protection Fault" ++ genprotectfaultText (code.getD m.pc))) ∧
    (v ∉ stoppingVectors → v ≠ 13 → ∃ m', p.Reaches entered m' ∧ m'.pc = code.getD m.pc ∧
      m'.data.world = m.data.world.write (handlerOf v).returnText) := by
  intro gate entered
  obtain ⟨hstops, hgpf⟩ := handlerOf_cases v hv
  have hentered : gate.offset = p.address (.entry (handlerOf v)) :=
    offset_gate p interrupts cpu hcalls hv
  have hruns : ∀ post, p.Leads (handlerOf v).code entered.data post →
      ∃ m', p.Reaches entered m' ∧ post m' := fun post hleads =>
    hleads gate.offset (hentered ▸ hp.linked.handlerPlaced (handlerOf v))
  have htop : ∃ stack, entered.data.stack = code.getD m.pc :: stack := by
    cases code <;> exact ⟨_, rfl⟩
  refine ⟨fun hmem => ?_, fun h13 => ?_, fun hmem hne => ?_⟩
  · rw [decide_eq_true hmem] at hstops
    obtain ⟨stack, hstack⟩ := htop
    refine hruns _ (hp.leads_stopText hstops (hnumber _) hstack fun m' hm' hworld => ⟨hm', ?_⟩)
    rw [hworld]
    exact exceptionScreen_write (isText_stopText _ _ _ _ _)
  · rw [show pushesErrorCode v = true by rw [h13]; rfl] at hcode
    obtain ⟨e, rfl⟩ := Option.isSome_iff_exists.mp hcode
    have hcodeOf : (handlerOf v).code = i386Genprotectfault := by
      rw [hgpf.mpr h13]
      rfl
    refine hruns _ ?_
    rw [hcodeOf]
    refine hp.leads_gpfText (hnumber .genprotectfault) rfl fun m' hpc hworld => ⟨hpc, ?_⟩
    rw [hworld]
    refine exceptionScreen_write ?_
    rw [List.forall_mem_append]
    exact ⟨isText_reportText _ .genprotectfault, isText_genprotectfaultText _⟩
  · rw [decide_eq_false hmem] at hstops
    have hthree : ∃ cs eflags stack,
        entered.data.stack = code.getD m.pc :: cs :: eflags :: stack := by
      cases code <;> exact ⟨_, _, _, rfl⟩
    obtain ⟨cs, eflags, stack, hstack⟩ := hthree
    exact hruns _ (hp.leads_returnText hstops (mt hgpf.mp hne) (hnumber _) hstack
      fun m' hpc hworld => ⟨hpc, hworld⟩)

/-! ## A machine with the strings in memory -/

/-- The strings are from address 1000 on. -/
def stringAddress (s : AsmSymbol) : BitVec 32 :=
  BitVec.ofNat 32 (1000 + asmStrings.findIdx fun e => e.1 = s)

/-- The string at an address. -/
def stringAt (address : BitVec 32) : Option CString :=
  asmStrings[address.toNat - 1000]?.bind fun e =>
    if h : isShortText e.2 = true then some (textString e.2 h) else none

/-- What a routine does to the system, as a machine routine. -/
def performing (effect : List (BitVec 32) → Console → BitVec 32 × Console) :
    Option (List (BitVec 32) → Console → Option (Returned Console)) :=
  some fun stack w => some ⟨fun _ => (effect stack w).1, 0, (effect stack w).2⟩

/-- The C routines of the kernel, with ports that read 0. -/
def consoleMachine : Program AsmSymbol Console where
  address := stringAddress
  text := fun _ => none
  routine := fun
    | .printf => performing (consoleRoutines stringAt fun _ => 0).printf
    | .puts => performing fun stack => (consoleRoutines stringAt fun _ => 0).puts (stack.headD 0)
    | .displayChangeColor => performing fun stack =>
      (consoleRoutines stringAt fun _ => 0).displayChangeColor (stack.headD 0)
    | .displayClear => performing fun _ => (consoleRoutines stringAt fun _ => 0).displayClear
    | _ => none
  input := fun _ con => (0, con)
  output := fun _ _ con => con
  stackEnd := 0x1000

theorem consoleMachine_performs {s : AsmSymbol}
    {effect : List (BitVec 32) → Console → BitVec 32 × Console}
    (h : consoleMachine.routine s = performing effect) : consoleMachine.Performs s effect :=
  ⟨_, h, fun _ _ => ⟨_, rfl, rfl, rfl⟩⟩

theorem stringAt_stringAddress {e : AsmSymbol × String} (he : e ∈ asmStrings) :
    ∃ str, stringAt (stringAddress e.1) = some str ∧ str.bytes = ascii e.2 := by
  have hall : asmStrings.all (fun e =>
      decide (asmStrings[(stringAddress e.1).toNat - 1000]? = some e)) = true := by
    decide +kernel
  have hget := of_decide_eq_true (List.all_eq_true.mp hall e he)
  have hshort := List.all_eq_true.mp isShortText_asmStrings e he
  refine ⟨textString e.2 hshort, ?_, rfl⟩
  rw [stringAt, hget]
  exact dif_pos hshort

theorem linked_consoleMachine : ConsoleMachine (link exceptionImage consoleMachine) stringAt
    (fun _ => 0) fun _ => 0 := by
  refine ⟨linked_exceptionImage (consoleMachine_performs rfl) (consoleMachine_performs rfl)
    (consoleMachine_performs rfl) (consoleMachine_performs rfl) rfl rfl, fun e he => ?_,
    fun _ _ => rfl⟩
  have hlabels : asmStrings.all (fun e => labelIndex e.1 exceptionImage = none) = true := by
    decide +kernel
  have haddress : (link exceptionImage consoleMachine).address e.1 = stringAddress e.1 := by
    change ((labelIndex e.1 exceptionImage).map _).getD _ = _
    rw [of_decide_eq_true (List.all_eq_true.mp hlabels e he)]
    rfl
  rw [haddress]
  exact stringAt_stringAddress he

/-- The kernel writes to address 20, where no page is. -/
theorem pagefault_screen :
    let p := link exceptionImage consoleMachine
    let gate := (cpuDriverInit (asmSymbols p 0) (.start default)).interrupts 14
    let m : State AsmSymbol Console := ⟨7, ⟨fun _ => 5, 0x202, 8, 20, [], fun
      | .number h => h.number
      | _ => 0, ⟨.start fun _ => 0, [], 0⟩⟩⟩
    ∃ m', p.Reaches (m.interrupt (some 2) (gate.selector.setWidth 32) gate.offset) m' ∧
      Stopped p m' ∧ m'.data.world.display.ExceptionScreen
        ((handlerOf 14).stopText p (fun _ => 0) 20 2) :=
  (exception_screen _ stringAt (fun _ => 0) (fun _ => 0) linked_consoleMachine 0 (.start default)
    [] (by simp) ⟨7, ⟨fun _ => 5, 0x202, 8, 20, [], fun
      | .number h => h.number
      | _ => 0, ⟨.start fun _ => 0, [], 0⟩⟩⟩ (fun _ => rfl) 14 (by decide) (some 2) rfl).1
    (by decide)

/-- That screen's text. -/
example : (handlerOf 14).stopText consoleMachine (fun _ => 0) 20 2 =
    ascii "[System Exception 0xE]: Page Fault\n\n" ++
    ascii "Fault Linear Address: 0x14\nFault in Page: 0x0\n" ++
    ascii "The requested page was not present in system memory\n" ++
    ascii "The fault occurred during an attempt to write to the page\n" ++
    ascii "The process was running in kernel mode\n" ++ systemStopText := by
  decide +kernel

end MissyKernel
