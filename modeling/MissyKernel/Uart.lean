import Mathlib.Data.BitVec
import Mathlib.Tactic

/-!
# A serial port chip

A 16550 behind eight ports, as far as a driver without interrupts sees it: the divisor latch
that takes the place of two registers, the two queues, and the line status. The queues hold
16 bytes each, or one with the queues switched off; a byte that comes into a full receiver is
lost, and a byte written to a full transmitter too. In loopback mode what goes out comes in.

`taken`, `lost` and `sent` are ghost fields: the bytes that came into the receiver's queue,
how many were lost there, and the bytes that went out on the line, oldest first.

What happens on the line is told apart from what the driver does: `arrive` and `depart` are the
line's, and `inportb` and `outportb` the driver's. `Works` is a chip that a driver has set up:
eight bits, no parity, the queues on, the latch away, and no more in a queue than it holds.
-/

namespace MissyKernel

/-- A 16550. -/
structure Uart : Type where
  /-- the first of its ports -/
  base : BitVec 16
  /-- the interrupt enable register -/
  ier : BitVec 8
  /-- the divisor latch -/
  divisor : BitVec 16
  /-- the queues are switched on -/
  fifo : Bool
  /-- the line control register -/
  lcr : BitVec 8
  /-- the modem control register -/
  mcr : BitVec 8
  /-- the scratch register -/
  scratch : BitVec 8
  /-- the receiver's queue, oldest first -/
  rx : List (BitVec 8)
  /-- the transmitter's queue, oldest first -/
  tx : List (BitVec 8)
  /-- a byte was lost since the line status was read -/
  overrun : Bool
  /-- ghost: what came into the receiver's queue -/
  taken : List (BitVec 8)
  /-- ghost: how many bytes were lost -/
  lost : ℕ
  /-- ghost: what went out -/
  sent : List (BitVec 8)

namespace Uart

/-- The divisor latch takes the place of the data and the interrupt enable register. -/
def dlab (u : Uart) : Bool := u.lcr.getLsbD 7

/-- What goes out comes in. -/
def loopback (u : Uart) : Bool := u.mcr.getLsbD 4

/-- The size of a queue. -/
def capacity (u : Uart) : ℕ := if u.fifo then 16 else 1

/-- The line status register. -/
def lineStatus (u : Uart) : BitVec 8 :=
  (if u.rx = [] then 0 else 0x01) ||| (if u.overrun then 0x02 else 0) |||
    if u.tx = [] then 0x60 else 0

/-- A write to the queue control register. -/
def control (u : Uart) (b : BitVec 8) : Uart :=
  if b.getLsbD 0 then
    { u with
      fifo := true
      rx := if u.fifo && !b.getLsbD 1 then u.rx else []
      tx := if u.fifo && !b.getLsbD 2 then u.tx else [] }
  else if u.fifo then { u with fifo := false, rx := [], tx := [] }
  else u

/-- A read of a register; those that say why there was an interrupt and how the modem is are
not followed. -/
def input (u : Uart) : ℕ → BitVec 8 × Uart
  | 0 =>
    if u.dlab then (u.divisor.setWidth 8, u)
    else
      match u.rx with
      | b :: rx => (b, { u with rx := rx })
      | [] => (0, u)
  | 1 => (if u.dlab then (u.divisor >>> 8).setWidth 8 else u.ier, u)
  | 3 => (u.lcr, u)
  | 4 => (u.mcr, u)
  | 5 => (u.lineStatus, { u with overrun := false })
  | 7 => (u.scratch, u)
  | _ => (0xff, u)

/-- A write of a register. -/
def output (u : Uart) (b : BitVec 8) : ℕ → Uart
  | 0 =>
    if u.dlab then { u with divisor := (u.divisor &&& 0xff00) ||| b.setWidth 16 }
    else if u.tx.length < u.capacity then { u with tx := u.tx ++ [b] }
    else u
  | 1 =>
    if u.dlab then { u with divisor := (u.divisor &&& 0x00ff) ||| (b.setWidth 16 <<< 8) }
    else { u with ier := b &&& 0x0f }
  | 2 => u.control b
  | 3 => { u with lcr := b }
  | 4 => { u with mcr := b &&& 0x1f }
  | 7 => { u with scratch := b }
  | _ => u

/-- `inportb` -/
def inportb (u : Uart) (port : BitVec 16) : BitVec 8 × Uart := u.input (port - u.base).toNat

/-- `outportb` -/
def outportb (u : Uart) (port : BitVec 16) (b : BitVec 8) : Uart :=
  u.output b (port - u.base).toNat

/-- A byte comes into the receiver. -/
def receive (u : Uart) (b : BitVec 8) : Uart :=
  if u.rx.length < u.capacity then { u with rx := u.rx ++ [b], taken := u.taken ++ [b] }
  else if u.fifo then { u with overrun := true, lost := u.lost + 1 }
  else { u with
    rx := u.rx.dropLast ++ [b]
    taken := u.taken.dropLast ++ [b]
    overrun := true
    lost := u.lost + 1 }

/-- A byte arrives on the line. -/
def arrive (u : Uart) (b : BitVec 8) : Uart := if u.loopback then u else u.receive b

/-- The transmitter is through with a byte. -/
def depart (u : Uart) : Uart :=
  match u.tx with
  | b :: tx =>
    if u.loopback then { u with tx := tx }.receive b
    else { u with tx := tx, sent := u.sent ++ [b] }
  | [] => u

/-- The chip works: eight bits, no parity, queues on, no loopback, no latch. -/
structure Works (u : Uart) : Prop where
  /-- eight bits, no parity, one stop bit, and the latch away -/
  lcr : u.lcr = 0x03
  /-- the queues -/
  fifo : u.fifo = true
  /-- no loopback -/
  mcr : u.mcr = 0x0b
  /-- no more than the queues hold -/
  room : u.rx.length ≤ 16 ∧ u.tx.length ≤ 16

variable {u : Uart} {base : BitVec 16}

/-! ## A chip that works -/

theorem offset_eq (base n : BitVec 16) : (base + n - base).toNat = n.toNat := by
  rw [BitVec.add_comm, BitVec.add_sub_cancel]

theorem base_output (b : BitVec 8) (n : ℕ) : (u.output b n).base = u.base := by
  unfold output control
  split
  · split
    · rfl
    · split <;> rfl
  · split <;> rfl
  · split
    · rfl
    · split <;> rfl
  all_goals rfl

theorem outportb_offset (hbase : u.base = base) (n : BitVec 16) (b : BitVec 8) :
    u.outportb (base + n) b = u.output b n.toNat := by
  rw [outportb, hbase, offset_eq]

namespace Works

theorem dlab (h : u.Works) : u.dlab = false := by
  rw [Uart.dlab, h.lcr]
  rfl

theorem loopback (h : u.Works) : u.loopback = false := by
  rw [Uart.loopback, h.mcr]
  rfl

theorem capacity (h : u.Works) : u.capacity = 16 := if_pos h.fifo

/-- The line status. -/
theorem inportb_status (h : u.Works) (hbase : u.base = base) :
    u.inportb (base + 5) = (u.lineStatus, { u with overrun := false }) ∧
      Works { u with overrun := false } := by
  refine ⟨?_, ⟨h.lcr, h.fifo, h.mcr, h.room⟩⟩
  subst hbase
  rw [inportb, offset_eq]
  rfl

/-- The oldest byte of the receiver. -/
theorem inportb_data (h : u.Works) (hbase : u.base = base) {b : BitVec 8}
    {rx : List (BitVec 8)} (hrx : u.rx = b :: rx) :
    u.inportb base = (b, { u with rx := rx }) ∧ Works { u with rx := rx } := by
  have hroom := h.room
  rw [hrx, List.length_cons] at hroom
  refine ⟨?_, ⟨h.lcr, h.fifo, h.mcr, Nat.le_of_succ_le hroom.1, hroom.2⟩⟩
  subst hbase
  rw [inportb, BitVec.sub_self]
  simp [input, h.dlab, hrx]

/-- A byte for the transmitter. -/
theorem outportb_data (h : u.Works) (hbase : u.base = base) (b : BitVec 8)
    (htx : u.tx.length < 16) :
    u.outportb base b = { u with tx := u.tx ++ [b] } ∧ Works { u with tx := u.tx ++ [b] } := by
  refine ⟨?_, ⟨h.lcr, h.fifo, h.mcr, h.room.1, by simpa using htx⟩⟩
  subst hbase
  rw [outportb, BitVec.sub_self]
  simp [output, h.dlab, h.capacity, htx]

theorem arrive_eq (h : u.Works) (b : BitVec 8) :
    u.arrive b = if u.rx.length < 16 then { u with rx := u.rx ++ [b], taken := u.taken ++ [b] }
      else { u with overrun := true, lost := u.lost + 1 } := by
  simp [arrive, receive, h.loopback, h.capacity, h.fifo]

theorem arrive (h : u.Works) (b : BitVec 8) : (u.arrive b).Works := by
  rw [h.arrive_eq]
  split
  · exact ⟨h.lcr, h.fifo, h.mcr, by simpa, h.room.2⟩
  · exact ⟨h.lcr, h.fifo, h.mcr, h.room⟩

theorem depart_eq (h : u.Works) :
    u.depart = { u with tx := u.tx.drop 1, sent := u.sent ++ u.tx.take 1 } := by
  obtain ⟨base, ier, divisor, fifo, lcr, mcr, scratch, rx, tx, overrun, taken, lost, sent⟩ := u
  cases tx with
  | nil => simp [depart]
  | cons b tx =>
    exact (if_neg (ne_true_of_eq_false h.loopback)).trans (by simp)

theorem depart (h : u.Works) : u.depart.Works := by
  rw [h.depart_eq]
  refine ⟨h.lcr, h.fifo, h.mcr, h.room.1, ?_⟩
  have hroom := h.room.2
  simp
  omega

end Works

/-- The bits of the line status that a driver asks for. -/
theorem lineStatus_ready (u : Uart) : u.lineStatus &&& 0x01 = 0 ↔ u.rx = [] := by
  rw [lineStatus]
  by_cases hrx : u.rx = [] <;> by_cases htx : u.tx = [] <;> cases u.overrun <;>
    simp [hrx, htx]

theorem lineStatus_empty (u : Uart) : u.lineStatus &&& 0x20 = 0 ↔ u.tx ≠ [] := by
  rw [lineStatus]
  by_cases hrx : u.rx = [] <;> by_cases htx : u.tx = [] <;> cases u.overrun <;>
    simp [hrx, htx]

end Uart

end MissyKernel
