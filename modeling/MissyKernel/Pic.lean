import Mathlib.Data.BitVec
import Mathlib.Tactic

/-!
# The interrupt controllers (`pic.c`)

Two 8259 chips behind four ports, as far as the kernel uses them: the initialization
words, the mask register behind the data port, the end-of-interrupt command, and the read
command that chooses what the command port answers. On top of them the functions of
`pic.c`, one port access after the other.

A `Chip` is in one of the phases of its initialization, and a byte for its data port is a mask
only in the last of them (`Ready`). What the chip does with a request, which line it serves and
what the end of interrupt takes back are its documented behaviour in fully nested mode.
-/

namespace MissyKernel

/-- What a chip takes a write to its data port for. -/
inductive DataWord : Type where
  /-- the mask -/
  | mask
  /-- `ICW2`, the vector offset -/
  | offset
  /-- `ICW3`, the cascade -/
  | cascade
  /-- `ICW4`, the mode -/
  | mode
deriving DecidableEq, Inhabited

/-- An 8259. -/
structure Chip : Type where
  /-- the interrupt mask register -/
  imr : BitVec 8
  /-- the interrupt request register -/
  irr : BitVec 8
  /-- the in-service register -/
  isr : BitVec 8
  /-- the command port answers the in-service register -/
  readIsr : Bool
  /-- what the next write to the data port is -/
  expects : DataWord
  /-- `ICW1` -/
  command : BitVec 8
  /-- `ICW2` -/
  offset : BitVec 8
  /-- `ICW3` -/
  cascade : BitVec 8
  /-- `ICW4` -/
  mode : BitVec 8
deriving Inhabited

/-- The line of highest priority with a bit in a register. -/
def highestLine (r : BitVec 8) : Option ℕ := (List.range 8).find? r.getLsbD

/-- A register without that bit. -/
def clearHighest (r : BitVec 8) : BitVec 8 :=
  match highestLine r with
  | none => r
  | some n => r &&& ~~~BitVec.twoPow 8 n

namespace Chip

/-- Whether `ICW4` follows, or the mask again. -/
def afterCascade (chip : Chip) : DataWord := if chip.command.getLsbD 0 then .mode else .mask

/-- A write to the command port: `ICW1`, an `OCW3` that chooses a register, or an `OCW2`, of
which the kernel knows the non-specific end of interrupt. -/
def writeCommand (chip : Chip) (data : BitVec 8) : Chip :=
  if data.getLsbD 4 then
    { chip with
      imr := 0, irr := 0, isr := 0, readIsr := false, expects := .offset, command := data }
  else if data.getLsbD 3 then
    if data.getLsbD 1 then { chip with readIsr := data.getLsbD 0 } else chip
  else if data >>> 5 = 1 then { chip with isr := clearHighest chip.isr }
  else chip

/-- A write to the data port. -/
def writeData (chip : Chip) (data : BitVec 8) : Chip :=
  match chip.expects with
  | .mask => { chip with imr := data }
  | .offset =>
    { chip with
      offset := data
      expects := if chip.command.getLsbD 1 then chip.afterCascade else .cascade }
  | .cascade => { chip with cascade := data, expects := chip.afterCascade }
  | .mode => { chip with mode := data, expects := .mask }

/-- A read of the command port. -/
def readCommand (chip : Chip) : BitVec 8 := if chip.readIsr then chip.isr else chip.irr

end Chip

/-- The two chips and the static of `pic.c`. -/
structure Pic8259a : Type where
  /-- behind the ports `0x20` and `0x21` -/
  master : Chip
  /-- behind the ports `0xa0` and `0xa1`; its output is the master's line 2 -/
  slave : Chip
  /-- `spurious` -/
  spurious : BitVec 32
deriving Inhabited

namespace Pic8259a

/-- `outportb` -/
def outportb (pic : Pic8259a) (port : ℕ) (data : BitVec 8) : Pic8259a :=
  if port = 0x20 then { pic with master := pic.master.writeCommand data }
  else if port = 0x21 then { pic with master := pic.master.writeData data }
  else if port = 0xa0 then { pic with slave := pic.slave.writeCommand data }
  else if port = 0xa1 then { pic with slave := pic.slave.writeData data }
  else pic

/-- `inportb` -/
def inportb (pic : Pic8259a) (port : ℕ) : BitVec 8 :=
  if port = 0x20 then pic.master.readCommand
  else if port = 0x21 then pic.master.imr
  else if port = 0xa0 then pic.slave.readCommand
  else if port = 0xa1 then pic.slave.imr
  else 0xff

/-- Both chips take a write to their data port for the mask. -/
structure Ready (pic : Pic8259a) : Prop where
  /-- the master -/
  master : pic.master.expects = .mask
  /-- the slave -/
  slave : pic.slave.expects = .mask

end Pic8259a

/-- `pic_8259a_initialize` -/
def pic8259aInitialize (pic : Pic8259a) (pic1Off pic2Off : BitVec 8) : Pic8259a :=
  let maskOne := pic.inportb 0x21
  let maskTwo := pic.inportb 0xa1
  let pic := pic.outportb 0x20 0x11
  let pic := pic.outportb 0xa0 0x11
  let pic := pic.outportb 0x21 pic1Off
  let pic := pic.outportb 0xa1 pic2Off
  let pic := pic.outportb 0x21 0x04
  let pic := pic.outportb 0xa1 0x02
  let pic := pic.outportb 0x21 0x01
  let pic := pic.outportb 0xa1 0x01
  let pic := pic.outportb 0x21 maskOne
  pic.outportb 0xa1 maskTwo

/-- The data port of the chip with the line. -/
def irqPort (irq : BitVec 8) : ℕ := if irq < 8 then 0x21 else 0xa1

/-- `1 << irq`, with the line counted on its own chip; the processor takes the count modulo
32. -/
def irqBit (irq : BitVec 8) : BitVec 32 :=
  (1 : BitVec 32) <<< ((if irq < 8 then irq else irq - 8).toNat % 32)

/-- `pic_8259a_mask_irq` -/
def pic8259aMaskIrq (pic : Pic8259a) (irq : BitVec 8) : Pic8259a :=
  pic.outportb (irqPort irq)
    (((pic.inportb (irqPort irq)).setWidth 32 ||| irqBit irq).setWidth 8)

/-- `pic_8259a_unmask_irq` -/
def pic8259aUnmaskIrq (pic : Pic8259a) (irq : BitVec 8) : Pic8259a :=
  pic.outportb (irqPort irq)
    (((pic.inportb (irqPort irq)).setWidth 32 &&& ~~~irqBit irq).setWidth 8)

/-- `pic_8259a_enable` -/
def pic8259aEnable (pic : Pic8259a) : Pic8259a := (pic.outportb 0x21 0x00).outportb 0xa1 0x00

/-- `pic_8259a_disable` -/
def pic8259aDisable (pic : Pic8259a) : Pic8259a := (pic.outportb 0x21 0xff).outportb 0xa1 0xff

/-- `pic_8259a_get_irqreg` -/
def pic8259aGetIrqreg (pic : Pic8259a) (ocw3 : BitVec 8) : BitVec 16 × Pic8259a :=
  let pic := pic.outportb 0x20 ocw3
  let pic := pic.outportb 0xa0 ocw3
  ((((pic.inportb 0xa1).setWidth 32 <<< 8) ||| (pic.inportb 0x21).setWidth 32).setWidth 16, pic)

/-- `pic_8259a_isrset` -/
def pic8259aIsrset (irqreg : BitVec 16) (irq : BitVec 8) : Bool :=
  irqreg.setWidth 32 &&& ((1 : BitVec 32) <<< (irq.toNat % 32)) ≠ 0

/-- `pic_8259a_send_eoi` -/
def pic8259aSendEoi (pic : Pic8259a) (irq : BitVec 8) : Pic8259a :=
  let (irqreg, pic) := pic8259aGetIrqreg pic 0x0b
  if (irq = 7 ∨ irq = 15) ∧ ¬ pic8259aIsrset irqreg irq then
    let pic := if irq = 15 then pic.outportb 0x20 0x20 else pic
    { pic with spurious := pic.spurious + 1 }
  else if 8 ≤ irq then pic.outportb 0xa0 0x20
  else pic.outportb 0x20 0x20

namespace Pic8259a

variable {pic : Pic8259a}

/-! ## What the functions leave in the chips -/

/-- Mask writes to chips that expect them. -/
theorem Ready.outportb_master (h : pic.Ready) (m : BitVec 8) :
    pic.outportb 0x21 m = { pic with master := { pic.master with imr := m } } := by
  simp [outportb, Chip.writeData, h.master]

theorem Ready.outportb_slave (h : pic.Ready) (m : BitVec 8) :
    pic.outportb 0xa1 m = { pic with slave := { pic.slave with imr := m } } := by
  simp [outportb, Chip.writeData, h.slave]

/-- Both masks. -/
def setMasks (pic : Pic8259a) (m s : BitVec 8) : Pic8259a :=
  { pic with master := { pic.master with imr := m }, slave := { pic.slave with imr := s } }

theorem Ready.setMasks (h : pic.Ready) (m s : BitVec 8) : (pic.setMasks m s).Ready :=
  ⟨h.master, h.slave⟩

theorem Ready.outportb_masks (h : pic.Ready) (m s : BitVec 8) :
    (pic.outportb 0x21 m).outportb 0xa1 s = pic.setMasks m s := by
  have hmaster : Ready { pic with master := { pic.master with imr := m } } := ⟨h.master, h.slave⟩
  rw [h.outportb_master m, hmaster.outportb_slave s]
  rfl

/-- After the initialization words both chips are in the mode that they ask for, and their
masks are back. -/
theorem initialize_eq (pic : Pic8259a) (pic1Off pic2Off : BitVec 8) :
    pic8259aInitialize pic pic1Off pic2Off =
      { pic with
        master := ⟨pic.master.imr, 0, 0, false, .mask, 0x11, pic1Off, 0x04, 0x01⟩
        slave := ⟨pic.slave.imr, 0, 0, false, .mask, 0x11, pic2Off, 0x02, 0x01⟩ } := by
  simp [pic8259aInitialize, outportb, inportb, Chip.writeCommand, Chip.writeData,
    Chip.afterCascade]

theorem ready_initialize (pic1Off pic2Off : BitVec 8) :
    (pic8259aInitialize pic pic1Off pic2Off).Ready := by
  rw [initialize_eq]
  exact ⟨rfl, rfl⟩

theorem Ready.enable (h : pic.Ready) : pic8259aEnable pic = pic.setMasks 0x00 0x00 :=
  h.outportb_masks _ _

theorem Ready.disable (h : pic.Ready) : pic8259aDisable pic = pic.setMasks 0xff 0xff :=
  h.outportb_masks _ _

end Pic8259a

end MissyKernel
