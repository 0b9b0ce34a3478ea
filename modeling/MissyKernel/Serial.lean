import MissyKernel.Simulation
import MissyKernel.Uart
import MissyKernel.Vprintf

/-!
# The serial port driver (`serial.c`)

The driver asks the chip over and over, with bytes arriving and leaving between any two of its
accesses. It writes only to an empty transmitter, so that every byte goes out once, in its
place, whatever the chip was doing before the driver came.

The first write of the initialisation is to switch the chip's interrupts off. It does unless
the divisor latch was left open: the write goes to the latch then.

`Sending` is the driver with the chip it talks to and the characters that are left; a step is an
access of the driver or something on the line. `Sending.Kept` is the invariant, `poll` and `put`
its two steps, and `progress` says that there is always a step to less that remains, from which
the end follows by the progress rule of `Simulation`.
-/

namespace MissyKernel

/-- What happens at the port. -/
inductive SerialEvent : Type where
  /-- the driver goes on -/
  | driver
  /-- a byte arrives on the line -/
  | arrive (b : BitVec 8)
  /-- the transmitter is through with a byte -/
  | depart
deriving DecidableEq

/-- `initialize_serial_device`, as far as it is about the chip. -/
def initializeSerialDevice (u : Uart) (port : BitVec 16) : Uart :=
  let u := u.outportb (port + 1) 0
  let u := u.outportb (port + 3) 0x80
  let u := u.outportb (port + 0) 0x03
  let u := u.outportb (port + 1) 0x00
  let u := u.outportb (port + 3) 0x03
  let u := u.outportb (port + 2) 0xc7
  u.outportb (port + 4) 0x0b

/-- What `serial_read_char` makes of a byte: one for deleting becomes a backspace, the end of
text -1. -/
def serialChar (c : BitVec 8) : BitVec 32 :=
  charOf (if c = 127 then 0x08 else if c = 3 then 0xff else c)

/-- `serial_write_chars` under way. -/
structure Sending : Type where
  /-- the chip -/
  uart : Uart
  /-- what is left of the buffer -/
  rest : List (BitVec 8)
  /-- the loop of `send_character` is over for the next character -/
  ready : Bool

namespace Sending

/-- One port access of `serial_write_chars`, until it returns. -/
def step (s : Sending) (port : BitVec 16) : Option Sending :=
  match s.rest with
  | [] => none
  | c :: rest =>
    if s.ready then some ⟨s.uart.outportb port c, rest, false⟩
    else
      let (status, uart) := s.uart.inportb (port + 5)
      some ⟨uart, c :: rest, status &&& 0x20 ≠ 0⟩

/-- How far the text is from being out, in steps. -/
def remaining (s : Sending) : ℕ :=
  s.uart.tx.length + (3 * s.rest.length - if s.ready then 1 else 0)

end Sending

/-- A step of the driver that sends, or of the line. -/
inductive Sends (port : BitVec 16) : Sending → SerialEvent → Sending → Prop where
  | driver {s s' : Sending} : s.step port = some s' → Sends port s .driver s'
  | arrive (s : Sending) (b : BitVec 8) :
    Sends port s (.arrive b) { s with uart := s.uart.arrive b }
  | depart (s : Sending) : Sends port s .depart { s with uart := s.uart.depart }

/-! ## The initialisation -/

theorem initializeSerialDevice_eq (u : Uart) :
    initializeSerialDevice u u.base = { u with
      ier := if u.dlab then u.ier else 0
      divisor := 3
      fifo := true
      lcr := 0x03
      mcr := 0x0b
      rx := []
      tx := [] } := by
  have hlatch : ∀ d : BitVec 16, (d &&& 0xff00 ||| 3) &&& 0x00ff ||| 0 = 3 := by
    intro d
    apply BitVec.eq_of_getLsbD_eq
    intro i hi
    interval_cases i <;> simp
  let first := u.output 0 1
  have hfirst : first = if u.dlab then { u with divisor := u.divisor &&& 0x00ff }
      else { u with ier := 0 } := by
    simp [first, Uart.output]
  have hopened : first.output 0x80 3 = { first with lcr := 0x80 } := rfl
  have hlow : ({ first with lcr := 0x80 } : Uart).output 0x03 0 =
      { first with lcr := 0x80, divisor := (first.divisor &&& 0xff00) ||| 3 } := by
    simp [Uart.output, Uart.dlab]
  have hhigh : ({ first with lcr := 0x80, divisor := (first.divisor &&& 0xff00) ||| 3 } :
      Uart).output 0 1 = { first with lcr := 0x80, divisor := 3 } := by
    have hdivisor := hlatch first.divisor
    simp [Uart.output, Uart.dlab] at hdivisor ⊢
    exact hdivisor
  have hclosed : ({ first with lcr := 0x80, divisor := 3 } : Uart).output 0x03 3 =
      { first with lcr := 0x03, divisor := 3 } := rfl
  have hqueues : ({ first with lcr := 0x03, divisor := 3 } : Uart).output 0xc7 2 =
      { first with lcr := 0x03, divisor := 3, fifo := true, rx := [], tx := [] } := by
    simp [Uart.output, Uart.control]
  have hports : initializeSerialDevice u u.base = ((((((u.output 0 1).output 0x80 3).output
      0x03 0).output 0 1).output 0x03 3).output 0xc7 2).output 0x0b 4 := by
    rw [initializeSerialDevice, Uart.outportb_offset rfl]
    simp only [Uart.outportb_offset, Uart.base_output]
    rfl
  rw [hports]
  change (((((first.output 0x80 3).output 0x03 0).output 0 1).output 0x03 3).output 0xc7 2).output
    0x0b 4 = _
  rw [hopened, hlow, hhigh, hclosed, hqueues, hfirst]
  cases u.dlab <;> rfl

theorem works_initializeSerialDevice (u : Uart) : (initializeSerialDevice u u.base).Works := by
  rw [initializeSerialDevice_eq]
  exact ⟨rfl, rfl, rfl, by simp, by simp⟩

/-! ## Sending -/

/-- What every step of the driver and the line keeps. -/
structure Sending.Kept (s : Sending) (port : BitVec 16) (ier : BitVec 8)
    (text : List (BitVec 8)) : Prop where
  works : s.uart.Works
  base : s.uart.base = port
  ier : s.uart.ier = ier
  /-- what is out, what is on its way and what is left is the text -/
  text : s.uart.sent ++ s.uart.tx ++ s.rest = text
  /-- the transmitter is empty when the driver writes to it -/
  ready : s.ready = true → s.uart.tx = []
  /-- it has one byte at most -/
  single : s.uart.tx.length ≤ 1

namespace Sending.Kept

variable {s s' : Sending} {port : BitVec 16} {ier : BitVec 8} {text : List (BitVec 8)}
  {e : SerialEvent}

/-- The driver asks whether the transmitter is empty. -/
theorem poll (h : s.Kept port ier text) {c : BitVec 8} {rest : List (BitVec 8)}
    (hrest : s.rest = c :: rest) (hready : s.ready = false) :
    ∃ s', s.step port = some s' ∧ s'.Kept port ier text ∧ s'.rest = s.rest ∧
      s'.uart.tx = s.uart.tx ∧ s'.ready = decide (s.uart.tx = []) := by
  obtain ⟨hstatus, hworks⟩ := h.works.inportb_status h.base
  have hempty : (decide (s.uart.lineStatus &&& 0x20 ≠ 0)) = decide (s.uart.tx = []) :=
    decide_eq_decide.mpr (by simpa using not_congr s.uart.lineStatus_empty)
  refine ⟨⟨{ s.uart with overrun := false }, s.rest, decide (s.uart.tx = [])⟩, ?_,
    ⟨hworks, h.base, h.ier, h.text, of_decide_eq_true, h.single⟩, rfl, rfl, rfl⟩
  rw [step, hrest, hready, hstatus]
  simp [← hempty]

/-- The driver writes a character. -/
theorem put (h : s.Kept port ier text) {c : BitVec 8} {rest : List (BitVec 8)}
    (hrest : s.rest = c :: rest) (hready : s.ready = true) :
    ∃ s', s.step port = some s' ∧ s'.Kept port ier text ∧ s'.rest = rest ∧
      s'.ready = false := by
  have htx := h.ready hready
  obtain ⟨hout, hworks⟩ := h.works.outportb_data h.base c (by simp [htx])
  refine ⟨⟨{ s.uart with tx := s.uart.tx ++ [c] }, rest, false⟩, ?_,
    ⟨hworks, h.base, h.ier, ?_, fun hfalse => ?_, by simp [htx]⟩, rfl, rfl⟩
  · rw [step, hrest, hready]
    exact congrArg (fun uart => some (Sending.mk uart rest false)) hout
  · have htext := h.text
    rw [hrest] at htext
    simpa using htext
  · cases hfalse

theorem depart (h : s.Kept port ier text) :
    Kept { s with uart := s.uart.depart } port ier text ∧ s.uart.depart.tx = [] := by
  have heq := h.works.depart_eq
  have htx : s.uart.tx.drop 1 = [] := by
    rw [List.drop_eq_nil_iff]
    exact h.single
  refine ⟨⟨h.works.depart, ?_, ?_, ?_, fun _ => ?_, ?_⟩, ?_⟩
  · simp [heq, h.base]
  · simp [heq, h.ier]
  · rw [← h.text]
    simp only [heq]
    rw [List.append_assoc s.uart.sent, List.take_append_drop]
  all_goals simp [heq, htx]

theorem step (h : s.Kept port ier text) (hstep : Sends port s e s') : s'.Kept port ier text := by
  cases hstep with
  | driver hs' =>
    cases hrest : s.rest with
    | nil =>
      rw [Sending.step, hrest] at hs'
      cases hs'
    | cons c rest =>
      cases hready : s.ready with
      | false =>
        obtain ⟨s'', hs'', hkept, -⟩ := h.poll hrest hready
        obtain rfl := Option.some.inj (hs'.symm.trans hs'')
        exact hkept
      | true =>
        obtain ⟨s'', hs'', hkept, -⟩ := h.put hrest hready
        obtain rfl := Option.some.inj (hs'.symm.trans hs'')
        exact hkept
  | arrive b =>
    have hsame : (s.uart.arrive b).base = s.uart.base ∧ (s.uart.arrive b).ier = s.uart.ier ∧
        (s.uart.arrive b).sent = s.uart.sent ∧ (s.uart.arrive b).tx = s.uart.tx := by
      rw [h.works.arrive_eq]
      split <;> simp
    obtain ⟨hbase, hier, hsent, htx⟩ := hsame
    refine ⟨h.works.arrive b, hbase.trans h.base, hier.trans h.ier, ?_, fun hready => ?_, ?_⟩
    · rw [hsent, htx]
      exact h.text
    · rw [htx]
      exact h.ready hready
    · rw [htx]
      exact h.single
  | depart => exact h.depart.1

/-- Something can be done until all is out. -/
theorem progress (h : s.Kept port ier text) (hmore : s.remaining ≠ 0) :
    ∃ e s', (e = .driver ∨ e = .depart) ∧ Sends port s e s' ∧ s'.Kept port ier text ∧
      s'.remaining < s.remaining := by
  cases htx : s.uart.tx with
  | cons b tx =>
    -- the transmitter is not empty, so that the driver has not found it empty
    obtain ⟨hkept, hempty⟩ := h.depart
    have hready : s.ready = false := by
      rw [Bool.eq_false_iff]
      intro hready
      simp [h.ready hready] at htx
    refine ⟨.depart, _, .inr rfl, .depart s, hkept, ?_⟩
    simp [Sending.remaining, hempty, hready, htx]
  | nil =>
    cases hrest : s.rest with
    | nil => simp [Sending.remaining, htx, hrest] at hmore
    | cons c rest =>
      cases hready : s.ready with
      | false =>
        obtain ⟨s', hs', hkept, hrest', htx', hready'⟩ := h.poll hrest hready
        refine ⟨.driver, s', .inl rfl, .driver hs', hkept, ?_⟩
        simp [Sending.remaining, hrest', htx', hready', htx, hrest, hready]
      | true =>
        obtain ⟨s', hs', hkept, hrest', hready'⟩ := h.put hrest hready
        have hsingle := hkept.single
        refine ⟨.driver, s', .inl rfl, .driver hs', hkept, ?_⟩
        simp only [Sending.remaining, hrest', hready', htx, hrest, hready, List.length_cons,
          List.length_nil, if_true, Bool.false_eq_true, if_false]
        omega

/-- The rest goes out, if the transmitter is given the time. -/
theorem finishes (h : s.Kept port ier text) :
    ∃ more s', Traces (Sends port) s more s' ∧ (∀ e ∈ more, e = .driver ∨ e = .depart) ∧
      more.length ≤ 3 * s.rest.length + 1 ∧ s'.rest = [] ∧ s'.uart.tx = [] ∧
      s'.uart.sent = text := by
  obtain ⟨more, s', hrun, hevents, hlength, hkept, hdone⟩ :=
    Traces.descend (fun s => s.Kept port ier text) Sending.remaining
      (fun e : SerialEvent => e = .driver ∨ e = .depart) progress h
  obtain ⟨htx, hrest⟩ := Nat.add_eq_zero_iff.mp hdone
  have htx : s'.uart.tx = [] := List.length_eq_zero_iff.mp htx
  have hrest : s'.rest = [] := by
    rw [← List.length_eq_zero_iff]
    split at hrest <;> omega
  have hsingle := h.single
  rw [Sending.remaining] at hlength
  refine ⟨more, s', hrun, hevents, by omega, hrest, htx, ?_⟩
  rw [← hkept.text, hrest, htx, List.append_nil, List.append_nil]

end Sending.Kept

/-- **Everything sent goes out once, in its place.** Whatever the chip was doing before the driver
came, and whatever the line does while it sends: what is out, what is on its way and what is left
are the text, and one byte at most is on its way. The driver never gets stuck: given the time the
rest goes out. The chip's interrupts are off if its latch was away.

The invariant keeps the three parts of the text in order through every access and every byte that
leaves. For the end, each character takes the driver two accesses at most and the line one
departure. -/
theorem serial_sends_all (u : Uart) (text : List (BitVec 8)) (events : List SerialEvent)
    (s : Sending)
    (hrun : Traces (Sends u.base) ⟨initializeSerialDevice u u.base, text, false⟩ events s) :
    s.uart.sent ++ s.uart.tx ++ s.rest = u.sent ++ text ∧ s.uart.tx.length ≤ 1 ∧
      s.uart.ier = (if u.dlab then u.ier else 0) ∧
      ∃ more s', Traces (Sends u.base) s more s' ∧ (∀ e ∈ more, e = .driver ∨ e = .depart) ∧
        more.length ≤ 3 * s.rest.length + 1 ∧ s'.rest = [] ∧ s'.uart.tx = [] ∧
        s'.uart.sent = u.sent ++ text := by
  have hinit : Sending.Kept ⟨initializeSerialDevice u u.base, text, false⟩ u.base
      (if u.dlab then u.ier else 0) (u.sent ++ text) := by
    have hworks := works_initializeSerialDevice u
    rw [initializeSerialDevice_eq] at hworks ⊢
    exact ⟨hworks, rfl, rfl, by simp, fun _ => rfl, by simp⟩
  have hkept := hrun.invariant
    (fun _ s => s.Kept u.base (if u.dlab then u.ier else 0) (u.sent ++ text)) hinit
    fun hkept hstep => hkept.step hstep
  exact ⟨hkept.text, hkept.single, hkept.ier, hkept.finishes⟩

/-- A chip out of the box, at the first port. -/
def Uart.fresh : Uart where
  base := 0x3f8
  ier := 0
  divisor := 12
  fifo := false
  lcr := 0
  mcr := 0
  scratch := 0
  rx := []
  tx := []
  overrun := false
  taken := []
  lost := 0
  sent := []

/-- Two characters, while one arrives. -/
theorem serial_sends_two :
    let s : Sending :=
      ⟨(initializeSerialDevice Uart.fresh 0x3f8).arrive 0x41, [0x6f, 0x6b], false⟩
    ∃ more s', Traces (Sends 0x3f8) s more s' ∧ more.length ≤ 7 ∧ s'.uart.sent = [0x6f, 0x6b] := by
  obtain ⟨-, -, -, more, s', hmore, -, hlength, -, -, hsent⟩ :=
    serial_sends_all Uart.fresh [0x6f, 0x6b] [.arrive 0x41]
      ⟨(initializeSerialDevice Uart.fresh 0x3f8).arrive 0x41, [0x6f, 0x6b], false⟩
      (.single (.arrive ⟨initializeSerialDevice Uart.fresh 0x3f8, [0x6f, 0x6b], false⟩ 0x41))
  exact ⟨more, s', hmore, hlength, hsent⟩

end MissyKernel
