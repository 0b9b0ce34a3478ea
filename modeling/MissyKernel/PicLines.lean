import MissyKernel.Cpu
import MissyKernel.Runs

/-!
# Which interrupt lines are deliverable

A line of the master is deliverable when its mask bit is clear, a line of the slave when
the master's bit 2 is clear as well, since that is where the slave's output goes. Each
operation does to the sixteen mask bits what it says; but none of them other than
`pic_8259a_enable` clears bit 2, so a slave line that is unmasked alone stays silent.

The result is for any sequence of the five operations, on any of the devices' lines.
`MasksAfter` is what the sixteen bits are after it: each line's bit follows the last operation
that concerns it. The line of the cascade is no device's, and none of the single-line operations
is for it (`IrqLine`): `pic_8259a_enable` opens it, and `pic_8259a_disable` closes it.
-/

namespace MissyKernel

/-- A line that a device can be on: line 2 is the slave's output. -/
def IrqLine : Type := { line : ℕ // line < 16 ∧ line ≠ 2 }

/-- An operation on the lines. -/
inductive PicOp : Type where
  /-- `pic_8259a_disable()` -/
  | disable
  /-- `pic_8259a_enable()` -/
  | enable
  /-- `pic_8259a_mask_irq(irq)` -/
  | mask (irq : IrqLine)
  /-- `pic_8259a_unmask_irq(irq)` -/
  | unmask (irq : IrqLine)
  /-- `cpu_install_device(irq, fn_address)` -/
  | install (irq : IrqLine) (fnAddress : BitVec 32)

namespace PicOp

/-- The effect of an operation. -/
def step (cpu : Cpu) : PicOp → Cpu
  | .disable => { cpu with pic := pic8259aDisable cpu.pic }
  | .enable => { cpu with pic := pic8259aEnable cpu.pic }
  | .mask irq => { cpu with pic := pic8259aMaskIrq cpu.pic (BitVec.ofNat 8 irq.1) }
  | .unmask irq => { cpu with pic := pic8259aUnmaskIrq cpu.pic (BitVec.ofNat 8 irq.1) }
  | .install irq fnAddress => cpuInstallDevice cpu ⟨BitVec.ofNat 32 irq.1, fnAddress⟩

/-- The operation concerns the line. -/
def concerns (line : ℕ) : PicOp → Bool
  | .disable => true
  | .enable => true
  | .mask irq => irq.1 = line
  | .unmask irq => irq.1 = line
  | .install irq _ => irq.1 = line

/-- An enable, an unmask or an install. -/
def opens : PicOp → Bool
  | .disable => false
  | .enable => true
  | .mask _ => false
  | .unmask _ => true
  | .install _ _ => true

end PicOp

/-- The last operation that concerned the line was an enable, an unmask or an install. -/
def opened (ops : List PicOp) (line : ℕ) : Bool :=
  ((ops.reverse.find? (·.concerns line)).map PicOp.opens).getD false

/-- The last of the enables and disables was an enable: nothing else concerns line 2. -/
def cascadeOpened (ops : List PicOp) : Bool := opened ops 2

namespace Pic8259a

/-- The mask bit of a line. -/
def maskBit (pic : Pic8259a) (line : ℕ) : Bool :=
  if line < 8 then pic.master.imr.getLsbD line else pic.slave.imr.getLsbD (line - 8)

/-- A request on the line gets through. -/
def deliverable (pic : Pic8259a) (line : ℕ) : Bool :=
  if line < 8 then !pic.maskBit line else !pic.maskBit line && !pic.maskBit 2

variable {pic : Pic8259a} {n line : ℕ}

/-! ## Mask bits -/

theorem maskBit_setMasks (m s : BitVec 8) :
    (pic.setMasks m s).maskBit line =
      if line < 8 then m.getLsbD line else s.getLsbD (line - 8) := rfl

/-- The byte that both functions write to, from the one they read. -/
theorem Ready.outportb_irqPort (h : pic.Ready) (irq data : BitVec 8) :
    pic.outportb (irqPort irq) data =
      if irq < 8 then pic.setMasks data pic.slave.imr else pic.setMasks pic.master.imr data := by
  rw [irqPort]
  split
  · exact h.outportb_master data
  · exact h.outportb_slave data

theorem inportb_irqPort (irq : BitVec 8) :
    pic.inportb (irqPort irq) = if irq < 8 then pic.master.imr else pic.slave.imr := by
  rw [irqPort]
  split <;> rfl

theorem ofNat_lt_eight (hn : n < 16) : BitVec.ofNat 8 n < 8 ↔ n < 8 := by
  rw [BitVec.lt_def, BitVec.toNat_ofNat, Nat.mod_eq_of_lt (by omega)]
  rfl

/-- The line as a bit of its chip. -/
theorem irqBit_eq (hn : n < 16) : irqBit (BitVec.ofNat 8 n) = BitVec.twoPow 32 (n % 8) := by
  have hcount : (if BitVec.ofNat 8 n < 8 then BitVec.ofNat 8 n else BitVec.ofNat 8 n - 8).toNat =
      n % 8 := by
    by_cases hlow : n < 8
    · rw [if_pos ((ofNat_lt_eight hn).mpr hlow), BitVec.toNat_ofNat]
      omega
    · rw [if_neg (mt (ofNat_lt_eight hn).mp hlow), BitVec.toNat_sub, BitVec.toNat_ofNat]
      change (2 ^ 8 - 8 + n % 2 ^ 8) % 2 ^ 8 = n % 8
      omega
  rw [irqBit, hcount, BitVec.twoPow_eq, Nat.mod_eq_of_lt (by omega)]
  rfl

theorem getLsbD_or_bit (m : BitVec 8) {i k : ℕ} (hi : i < 8) :
    ((m.setWidth 32 ||| BitVec.twoPow 32 k).setWidth 8).getLsbD i =
      (m.getLsbD i || decide (i = k)) := by
  have hi' : i < 32 := by omega
  simp [hi, hi']

theorem getLsbD_and_not_bit (m : BitVec 8) {i k : ℕ} (hi : i < 8) :
    ((m.setWidth 32 &&& ~~~BitVec.twoPow 32 k).setWidth 8).getLsbD i =
      (m.getLsbD i && !decide (i = k)) := by
  have hi' : i < 32 := by omega
  simp [hi, hi']

/-- A byte with the lines' bits, written where it was read, changes the one line. -/
theorem Ready.maskBit_outportb {b : Bool} {f : BitVec 8 → BitVec 8} (h : pic.Ready)
    (hn : n < 16) (hline : line < 16)
    (hedit : ∀ m : BitVec 8, ∀ i < 8,
      (f m).getLsbD i = if i = n % 8 then b else m.getLsbD i) :
    (pic.outportb (irqPort (BitVec.ofNat 8 n))
        (f (pic.inportb (irqPort (BitVec.ofNat 8 n))))).maskBit line =
      if line = n then b else pic.maskBit line := by
  rw [h.outportb_irqPort, inportb_irqPort]
  by_cases hlow : n < 8
  · rw [if_pos ((ofNat_lt_eight hn).mpr hlow), if_pos ((ofNat_lt_eight hn).mpr hlow),
      maskBit_setMasks, maskBit]
    split_ifs with hl hln hln
    · rw [hedit _ _ hl, if_pos (by omega)]
    · rw [hedit _ _ hl, if_neg (by omega)]
    · omega
    · rfl
  · rw [if_neg (mt (ofNat_lt_eight hn).mp hlow), if_neg (mt (ofNat_lt_eight hn).mp hlow),
      maskBit_setMasks, maskBit]
    split_ifs with hl hln hln
    · omega
    · rfl
    · rw [hedit _ _ (by omega), if_pos (by omega)]
    · rw [hedit _ _ (by omega), if_neg (by omega)]

theorem Ready.maskBit_maskIrq (h : pic.Ready) (hn : n < 16) (hline : line < 16) :
    (pic8259aMaskIrq pic (BitVec.ofNat 8 n)).maskBit line =
      if line = n then true else pic.maskBit line := by
  rw [pic8259aMaskIrq, irqBit_eq hn]
  refine h.maskBit_outportb
    (f := fun m => (m.setWidth 32 ||| BitVec.twoPow 32 (n % 8)).setWidth 8) hn hline
    fun m i hi => ?_
  rw [getLsbD_or_bit m hi]
  by_cases hin : i = n % 8 <;> simp [hin]

theorem Ready.maskBit_unmaskIrq (h : pic.Ready) (hn : n < 16) (hline : line < 16) :
    (pic8259aUnmaskIrq pic (BitVec.ofNat 8 n)).maskBit line =
      if line = n then false else pic.maskBit line := by
  rw [pic8259aUnmaskIrq, irqBit_eq hn]
  refine h.maskBit_outportb
    (f := fun m => (m.setWidth 32 &&& ~~~BitVec.twoPow 32 (n % 8)).setWidth 8) hn hline
    fun m i hi => ?_
  rw [getLsbD_and_not_bit m hi]
  by_cases hin : i = n % 8 <;> simp [hin]

theorem Ready.outportb_irqPort_ready (h : pic.Ready) (irq data : BitVec 8) :
    (pic.outportb (irqPort irq) data).Ready := by
  rw [h.outportb_irqPort]
  split
  · exact h.setMasks _ _
  · exact h.setMasks _ _

theorem maskBit_setMasks_zero : (pic.setMasks 0x00 0x00).maskBit line = false := by
  simp [maskBit_setMasks]

theorem maskBit_setMasks_ones (hline : line < 16) :
    (pic.setMasks 0xff 0xff).maskBit line = true := by
  have hones : (0xff : BitVec 8) = BitVec.allOnes 8 := rfl
  rw [maskBit_setMasks, hones]
  split_ifs with hlow
  · rw [BitVec.getLsbD_allOnes]
    exact decide_eq_true hlow
  · rw [BitVec.getLsbD_allOnes]
    exact decide_eq_true (by omega)

end Pic8259a

/-! ## Runs -/

theorem opened_append (ops : List PicOp) (op : PicOp) (line : ℕ) :
    opened (ops ++ [op]) line = if op.concerns line then op.opens else opened ops line := by
  rw [opened, find?_reverse_concat]
  cases op.concerns line <;> rfl

/-- The mask bits say what the operations so far were. -/
structure Cpu.MasksAfter (cpu : Cpu) (ops : List PicOp) : Prop where
  /-- the chips are initialised -/
  ready : cpu.pic.Ready
  /-- the lines go through them -/
  usingApic : cpu.usingApic = false
  /-- the mask bits, line 2 included -/
  maskBit : ∀ line < 16, cpu.pic.maskBit line = !opened ops line

namespace Cpu

variable {cpu : Cpu} {ops : List PicOp}

theorem pic_installHandler (index : BitVec 32) (flags : BitVec 8) (selector : BitVec 16)
    (routine : BitVec 32) :
    (cpu.installHandler index flags selector routine).2.pic = cpu.pic ∧
      (cpu.installHandler index flags selector routine).2.usingApic = cpu.usingApic := by
  rw [installHandler]
  split <;> exact ⟨rfl, rfl⟩

theorem pic_installHandlers (installs : List (ℕ × BitVec 32)) :
    (cpu.installHandlers installs).pic = cpu.pic ∧
      (cpu.installHandlers installs).usingApic = cpu.usingApic := by
  refine foldl_invariant (I := fun cpu' => cpu'.pic = cpu.pic ∧ cpu'.usingApic = cpu.usingApic)
    (fun cpu' p h => ?_) installs cpu ⟨rfl, rfl⟩
  obtain ⟨hpic, hapic⟩ := @pic_installHandler cpu' (BitVec.ofNat 32 p.1) 0x8e 0x08 p.2
  exact ⟨hpic.trans h.1, hapic.trans h.2⟩

theorem pic_cpuDriverInit (sym : CpuSymbols) (cpu : Cpu) :
    (cpuDriverInit sym cpu).pic = pic8259aDisable (pic8259aInitialize cpu.pic 0x20 0x28) ∧
      (cpuDriverInit sym cpu).usingApic = cpu.usingApic := by
  unfold cpuDriverInit
  generalize List.range 256 = l
  constructor
  · simp only [startInterrupts, loadIdtr, (pic_installHandlers _).1, stopInterrupts]
  · simp only [startInterrupts, loadIdtr, (pic_installHandlers _).2, stopInterrupts]

theorem pic_cpuInstallDevice (hapic : cpu.usingApic = false) (call : InstallCall) :
    (cpuInstallDevice cpu call).pic = pic8259aUnmaskIrq cpu.pic (call.irq.setWidth 8) ∧
      (cpuInstallDevice cpu call).usingApic = false := by
  obtain ⟨hpic, hkept⟩ := @pic_installHandler cpu.stopInterrupts (call.irq + 0x20) 0x8e 0x08
    call.fnAddress
  have hoff : ¬ (cpu.stopInterrupts.installHandler (call.irq + 0x20) 0x8e 0x08
      call.fnAddress).2.startInterrupts.usingApic = true :=
    Bool.not_eq_true _ ▸ hkept.trans hapic
  rw [cpuInstallDevice, if_neg hoff]
  exact ⟨congrArg (pic8259aUnmaskIrq · _) hpic, hkept.trans hapic⟩

/-- Everything is masked at first. -/
theorem masksAfter_cpuDriverInit (sym : CpuSymbols) (pic : Pic8259a) :
    (cpuDriverInit sym (.start pic)).MasksAfter [] := by
  obtain ⟨hpic, hapic⟩ := pic_cpuDriverInit sym (.start pic)
  have hready : (pic8259aInitialize (Cpu.start pic).pic 0x20 0x28).Ready :=
    Pic8259a.ready_initialize 0x20 0x28
  rw [hready.disable] at hpic
  refine ⟨hpic ▸ hready.setMasks _ _, hapic, fun line hline => ?_⟩
  rw [hpic, Pic8259a.maskBit_setMasks_ones hline]
  rfl

/-- One operation. -/
theorem MasksAfter.step (h : cpu.MasksAfter ops) (op : PicOp) :
    (op.step cpu).MasksAfter (ops ++ [op]) := by
  have hunmask : ∀ irq : IrqLine, ∀ line < 16,
      (pic8259aUnmaskIrq cpu.pic (BitVec.ofNat 8 irq.1)).maskBit line =
        !if irq.1 = line then true else opened ops line := by
    intro irq line hline
    rw [h.ready.maskBit_unmaskIrq irq.2.1 hline, h.maskBit line hline]
    by_cases hirq : irq.1 = line
    · rw [if_pos hirq.symm, if_pos hirq]
      rfl
    · rw [if_neg (Ne.symm hirq), if_neg hirq]
  cases op with
  | disable =>
    have hpic : (PicOp.disable.step cpu).pic = _ := h.ready.disable
    refine ⟨hpic ▸ h.ready.setMasks _ _, h.usingApic, fun line hline => ?_⟩
    rw [opened_append]
    exact (congrArg (·.maskBit line) hpic).trans (Pic8259a.maskBit_setMasks_ones hline)
  | enable =>
    have hpic : (PicOp.enable.step cpu).pic = _ := h.ready.enable
    refine ⟨hpic ▸ h.ready.setMasks _ _, h.usingApic, fun line hline => ?_⟩
    rw [opened_append]
    exact (congrArg (·.maskBit line) hpic).trans Pic8259a.maskBit_setMasks_zero
  | mask irq =>
    refine ⟨h.ready.outportb_irqPort_ready _ _, h.usingApic, fun line hline => ?_⟩
    rw [opened_append]
    refine (h.ready.maskBit_maskIrq irq.2.1 hline).trans ?_
    rw [h.maskBit line hline]
    by_cases hirq : irq.1 = line
    · simp [PicOp.concerns, PicOp.opens, hirq]
    · simp [PicOp.concerns, hirq, Ne.symm hirq]
  | unmask irq =>
    refine ⟨h.ready.outportb_irqPort_ready _ _, h.usingApic, fun line hline => ?_⟩
    rw [opened_append]
    refine (hunmask irq line hline).trans ?_
    simp [PicOp.concerns, PicOp.opens]
  | install irq fnAddress =>
    obtain ⟨hpic, hapic⟩ := pic_cpuInstallDevice h.usingApic ⟨BitVec.ofNat 32 irq.1, fnAddress⟩
    have hirq : (BitVec.ofNat 32 irq.1).setWidth 8 = BitVec.ofNat 8 irq.1 := by
      apply BitVec.eq_of_toNat_eq
      simp
    rw [hirq] at hpic
    refine ⟨hpic ▸ h.ready.outportb_irqPort_ready _ _, hapic, fun line hline => ?_⟩
    rw [opened_append]
    refine ((congrArg (·.maskBit line) hpic).trans (hunmask irq line hline)).trans ?_
    simp [PicOp.concerns, PicOp.opens]

/-- All operations. -/
theorem masksAfter_foldl (sym : CpuSymbols) (pic : Pic8259a) (ops : List PicOp) :
    (ops.foldl PicOp.step (cpuDriverInit sym (.start pic))).MasksAfter ops := by
  induction ops using List.reverseRecOn with
  | nil => exact masksAfter_cpuDriverInit sym pic
  | append_singleton ops op ih =>
    rw [List.foldl_append]
    exact ih.step op

end Cpu

/-- **When an unmasked line is deliverable.** After every sequence of operations from the
initialisation on, the deliverable lines are those whose last operation opened them exactly when
the last enable or disable was an enable, or no slave line's last operation opened it.

The mask bits say what the operations were (`masksAfter_foldl`), for each line as for the cascade.
A line of the master is deliverable with its own bit; a line of the slave needs the cascade's too,
and that is not among the bits it opens. -/
theorem opened_deliverable_iff (sym : CpuSymbols) (pic : Pic8259a) (ops : List PicOp) :
    (∀ line : IrqLine,
        (ops.foldl PicOp.step (cpuDriverInit sym (.start pic))).pic.deliverable line.1 =
          opened ops line.1) ↔
      cascadeOpened ops = true ∨ ∀ line : IrqLine, 8 ≤ line.1 → opened ops line.1 = false := by
  have hmask := (Cpu.masksAfter_foldl sym pic ops).maskBit
  have hlow : ∀ line : IrqLine, line.1 < 8 →
      (ops.foldl PicOp.step (cpuDriverInit sym (.start pic))).pic.deliverable line.1 =
        opened ops line.1 := by
    intro line hline
    rw [Pic8259a.deliverable, if_pos hline, hmask _ line.2.1, Bool.not_not]
  have hhigh : ∀ line : IrqLine, 8 ≤ line.1 →
      (ops.foldl PicOp.step (cpuDriverInit sym (.start pic))).pic.deliverable line.1 =
        (opened ops line.1 && cascadeOpened ops) := by
    intro line hline
    rw [Pic8259a.deliverable, if_neg hline.not_gt, hmask _ line.2.1, hmask 2 (by decide),
      Bool.not_not, Bool.not_not, cascadeOpened]
  constructor
  · intro h
    by_cases hcascade : cascadeOpened ops = true
    · exact Or.inl hcascade
    · right
      intro line hline
      rw [← h line, hhigh line hline, Bool.eq_false_iff.mpr hcascade, Bool.and_false]
  · intro h line
    by_cases hline : line.1 < 8
    · exact hlow line hline
    · rw [hhigh line (by omega)]
      rcases h with hcascade | hclosed
      · rw [hcascade, Bool.and_true]
      · rw [hclosed line (by omega), Bool.false_and]

/-- The real-time clock's line, installed right after the initialisation. -/
theorem installed_slave_not_deliverable :
    ¬ ((PicOp.install ⟨8, by decide⟩ 0).step
        (cpuDriverInit default (.start default))).pic.deliverable 8 =
      opened [.install ⟨8, by decide⟩ 0] 8 := by
  have hmask := (Cpu.masksAfter_foldl default default [.install ⟨8, by decide⟩ 0]).maskBit
  rw [List.foldl_cons, List.foldl_nil] at hmask
  rw [Pic8259a.deliverable, if_neg (by decide), hmask 2 (by decide)]
  simp [opened, PicOp.concerns, PicOp.opens]

end MissyKernel
