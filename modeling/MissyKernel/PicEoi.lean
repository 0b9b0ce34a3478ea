import MissyKernel.Pic

/-!
# The end of an interrupt (`pic_8259a_send_eoi`)

A run is a tree: the handler of an interrupt may itself be interrupted. Accepting an
interrupt sets the in-service bits that the chips set, and the handler ends with
`pic_8259a_send_eoi`, which should take them back and count the spurious ones.

The function asks for the in-service registers but reads the masks, from the data ports;
and it sends a slave's end of interrupt to the slave alone, so that line 2 of the master
stays in service. What is left are the lines 0 to 6, and the lines 7 and 15 where the mask
happens to say what the in-service register would.

The nesting is kept in the type `Run`, with the masks that each handler leaves behind, so that
the statement is by induction on the tree: a run is clean exactly when each of its interrupts
fits the masks at its end (`Run.Fit`). `ended_genuine_iff` and `ended_iff` are the end of a
single interrupt, and `slave_interrupt_stuck` is the real-time clock's.
-/

namespace MissyKernel

/-- An interrupt that the processor accepts. -/
inductive Interrupt : Type where
  /-- a device's, on one of the sixteen lines -/
  | genuine (irq : Fin 16)
  /-- the master's answer when the request is gone -/
  | spurious7
  /-- the slave's answer when the request is gone -/
  | spurious15

namespace Interrupt

/-- The line that the handler is for. -/
def line : Interrupt → ℕ
  | .genuine irq => irq
  | .spurious7 => 7
  | .spurious15 => 15

/-- The argument of `pic_8259a_send_eoi`. -/
def irq (i : Interrupt) : BitVec 8 := BitVec.ofNat 8 i.line

theorem line_lt (i : Interrupt) : i.line < 16 := by
  cases i with
  | genuine irq => exact irq.isLt
  | spurious7 => exact show 7 < 16 by decide
  | spurious15 => exact show 15 < 16 by decide

/-- No device asked for it. -/
def isSpurious : Interrupt → Bool
  | .genuine _ => false
  | .spurious7 => true
  | .spurious15 => true

end Interrupt

namespace Chip

/-- The chip puts a line in service. -/
def accept (chip : Chip) (n : ℕ) : Chip :=
  { chip with
    irr := chip.irr &&& ~~~BitVec.twoPow 8 n
    isr := chip.isr ||| BitVec.twoPow 8 n }

/-- No line in service has the priority of the line, or a higher one. -/
def Free (chip : Chip) (n : ℕ) : Prop := ∀ k ≤ n, chip.isr.getLsbD k = false

end Chip

namespace Pic8259a

/-- What accepting an interrupt leaves in the chips. -/
def accept (pic : Pic8259a) : Interrupt → Pic8259a
  | .genuine irq =>
    if irq.val < 8 then { pic with master := pic.master.accept irq }
    else { pic with master := pic.master.accept 2, slave := pic.slave.accept (irq - 8) }
  | .spurious7 => pic
  | .spurious15 => { pic with master := pic.master.accept 2 }

/-- The chips let the interrupt through: its line comes before all lines in service, and for
a spurious one so does the line whose request is gone. -/
def Accepts (pic : Pic8259a) : Interrupt → Prop
  | .genuine irq =>
    if irq.val < 8 then pic.master.Free irq else pic.master.Free 2 ∧ pic.slave.Free (irq - 8)
  | .spurious7 => ∃ n < 8, pic.master.Free n
  | .spurious15 => pic.master.Free 2 ∧ ∃ n < 8, pic.slave.Free n

/-- Between accepting an interrupt and its end the in-service registers are back and the
count is right: the states before accepting, before the end and after it. -/
structure Ended (pic before after : Pic8259a) (i : Interrupt) : Prop where
  /-- the master's register -/
  master : after.master.isr = pic.master.isr
  /-- the slave's register -/
  slave : after.slave.isr = pic.slave.isr
  /-- the count -/
  spurious : after.spurious = if i.isSpurious then before.spurious + 1 else before.spurious

end Pic8259a

/-- What happens during a handler, or while no handler runs. -/
inductive Run : Type where
  /-- nothing more -/
  | done
  /-- both masks are set -/
  | masks (m s : BitVec 8) (rest : Run)
  /-- an interrupt: its handler, up to the end of interrupt, and what follows -/
  | interrupt (i : Interrupt) (handler rest : Run)

namespace Run

/-- The state that a run leaves. -/
def exec (pic : Pic8259a) : Run → Pic8259a
  | .done => pic
  | .masks m s rest => exec ((pic.outportb 0x21 m).outportb 0xa1 s) rest
  | .interrupt i handler rest =>
    exec (pic8259aSendEoi (exec (pic.accept i) handler) i.irq) rest

/-- The masks that a run leaves. -/
def masksAfter (masks : BitVec 8 × BitVec 8) : Run → BitVec 8 × BitVec 8
  | .done => masks
  | .masks m s rest => masksAfter (m, s) rest
  | .interrupt _ handler rest => masksAfter (masksAfter masks handler) rest

/-- Every interrupt is one that the chips let through. -/
def Legal (pic : Pic8259a) : Run → Prop
  | .done => True
  | .masks m s rest => Legal ((pic.outportb 0x21 m).outportb 0xa1 s) rest
  | .interrupt i handler rest =>
    pic.Accepts i ∧ Legal (pic.accept i) handler ∧
      Legal (pic8259aSendEoi (exec (pic.accept i) handler) i.irq) rest

/-- Every interrupt ends with the registers it found, and is counted if it is spurious. -/
def Clean (pic : Pic8259a) : Run → Prop
  | .done => True
  | .masks m s rest => Clean ((pic.outportb 0x21 m).outportb 0xa1 s) rest
  | .interrupt i handler rest =>
    Clean (pic.accept i) handler ∧
      pic.Ended (exec (pic.accept i) handler)
        (pic8259aSendEoi (exec (pic.accept i) handler) i.irq) i ∧
      Clean (pic8259aSendEoi (exec (pic.accept i) handler) i.irq) rest

end Run

/-- The interrupts whose end is right under the masks of the moment: a master's line other
than 7, line 7 when it is masked, a spurious 7 or 15 when the line is not masked. -/
def Interrupt.Fits (masks : BitVec 8 × BitVec 8) : Interrupt → Prop
  | .genuine irq => irq.val < 7 ∨ irq.val = 7 ∧ masks.1.getLsbD 7 = true
  | .spurious7 => masks.1.getLsbD 7 = false
  | .spurious15 => masks.2.getLsbD 7 = false

/-- Every interrupt of the run fits the masks at its end. -/
def Run.Fit (masks : BitVec 8 × BitVec 8) : Run → Prop
  | .done => True
  | .masks m s rest => Fit (m, s) rest
  | .interrupt i handler rest =>
    Fit masks handler ∧ i.Fits (handler.masksAfter masks) ∧ Fit (handler.masksAfter masks) rest

/-! ## The bit of highest priority -/

theorem clearHighest_or {r : BitVec 8} {n : ℕ} (hn : n < 8)
    (hfree : ∀ k ≤ n, r.getLsbD k = false) : clearHighest (r ||| BitVec.twoPow 8 n) = r := by
  have hhighest : highestLine (r ||| BitVec.twoPow 8 n) = some n := by
    rw [highestLine, List.find?_range_eq_some]
    refine ⟨?_, List.mem_range.mpr hn, fun j hj => ?_⟩
    · simp [hn]
    · rw [BitVec.getLsbD_or, hfree j (by omega), BitVec.getLsbD_twoPow]
      simp [Nat.ne_of_gt hj]
  rw [clearHighest, hhighest]
  apply BitVec.eq_of_getLsbD_eq
  intro k hk
  by_cases hkn : n = k
  · subst hkn
    have hclear := hfree n (le_refl n)
    rw [BitVec.getLsbD_eq_getElem hk] at hclear
    simp [hk, hclear]
  · simp [hk, Ne.symm hkn]

/-! ## One end of interrupt -/

namespace Pic8259a

/-- Both chips answer their in-service registers next. -/
def asked (pic : Pic8259a) : Pic8259a :=
  { pic with
    master := { pic.master with readIsr := true }
    slave := { pic.slave with readIsr := true } }

/-- The master's end of interrupt. -/
def eoiMaster (pic : Pic8259a) : Pic8259a :=
  { pic with master := { pic.master with isr := clearHighest pic.master.isr } }

/-- The slave's end of interrupt. -/
def eoiSlave (pic : Pic8259a) : Pic8259a :=
  { pic with slave := { pic.slave with isr := clearHighest pic.slave.isr } }

/-- One more spurious interrupt. -/
def count (pic : Pic8259a) : Pic8259a := { pic with spurious := pic.spurious + 1 }

variable {pic : Pic8259a}

/-- The registers that are read are the masks. -/
theorem getIrqreg_eq (pic : Pic8259a) :
    pic8259aGetIrqreg pic 0x0b = (pic.slave.imr ++ pic.master.imr, pic.asked) := by
  have hreg : (((pic.slave.imr.setWidth 32 <<< 8) ||| pic.master.imr.setWidth 32).setWidth 16 :
      BitVec 16) = pic.slave.imr ++ pic.master.imr := by
    apply BitVec.eq_of_getLsbD_eq
    intro k hk
    rw [BitVec.getLsbD_append]
    by_cases hlow : k < 8
    · simp [hk, hlow]
    · have hover : pic.master.imr.getLsbD k = false := BitVec.getLsbD_of_ge _ _ (by omega)
      simp [hk, hlow, hover]
  rw [← hreg]
  simp [pic8259aGetIrqreg, outportb, inportb, Chip.writeCommand, asked]

theorem isrset_eq (irqreg : BitVec 16) {irq : BitVec 8} (hirq : irq.toNat < 16) :
    pic8259aIsrset irqreg irq = irqreg.getLsbD irq.toNat := by
  have hone : (1 : BitVec 32) = 1#32 := rfl
  rw [pic8259aIsrset, Nat.mod_eq_of_lt (by omega), hone, ← BitVec.twoPow_eq, BitVec.and_twoPow,
    BitVec.getLsbD_setWidth, decide_eq_true (show irq.toNat < 32 by omega), Bool.true_and]
  have hbit : BitVec.twoPow 32 irq.toNat ≠ 0 := by
    intro hzero
    have hlsb := congrArg (·.getLsbD irq.toNat) hzero
    simp [show irq.toNat < 32 by omega] at hlsb
  cases irqreg.getLsbD irq.toNat
  · simp
  · simpa using hbit

theorem outportb_eoi (pic : Pic8259a) :
    pic.outportb 0x20 0x20 = pic.eoiMaster ∧ pic.outportb 0xa0 0x20 = pic.eoiSlave := by
  simp [outportb, Chip.writeCommand, eoiMaster, eoiSlave]

/-- The end of an interrupt on one of the sixteen lines. -/
theorem sendEoi_eq (pic : Pic8259a) {irq : BitVec 8} (hirq : irq.toNat < 16) :
    pic8259aSendEoi pic irq =
      if irq = 7 ∧ pic.master.imr.getLsbD 7 = false then pic.asked.count
      else if irq = 15 ∧ pic.slave.imr.getLsbD 7 = false then pic.asked.eoiMaster.count
      else if 8 ≤ irq then pic.asked.eoiSlave
      else pic.asked.eoiMaster := by
  rw [pic8259aSendEoi, getIrqreg_eq]
  simp only [isrset_eq _ hirq, (outportb_eoi _).1, (outportb_eoi _).2]
  by_cases h7 : irq = 7
  · subst h7
    have hbit : (pic.slave.imr ++ pic.master.imr).getLsbD (7 : BitVec 8).toNat =
        pic.master.imr.getLsbD 7 := by
      rw [BitVec.getLsbD_append]
      rfl
    have hne : ¬ (7 : BitVec 8) = 15 := by decide
    have hlow : ¬ (8 : BitVec 8) ≤ 7 := by decide
    cases hmask : pic.master.imr.getLsbD 7
    all_goals simp only [hbit, hmask, hne, hlow, true_or, true_and, false_and, not_false_eq_true,
      not_true_eq_false, Bool.false_eq_true, Bool.true_eq_false, if_true, if_false,
      and_false, count]
  by_cases h15 : irq = 15
  · subst h15
    have hbit : (pic.slave.imr ++ pic.master.imr).getLsbD (15 : BitVec 8).toNat =
        pic.slave.imr.getLsbD 7 := by
      rw [BitVec.getLsbD_append]
      rfl
    cases hmask : pic.slave.imr.getLsbD 7
    all_goals simp only [hbit, hmask, h7, or_true, true_and, false_and, not_false_eq_true,
      not_true_eq_false, Bool.false_eq_true, Bool.true_eq_false, if_true, if_false,
      and_false, count]
  · simp only [h7, h15, or_false, false_and, if_false]

/-- The same on a line number. -/
theorem sendEoi_ofNat (pic : Pic8259a) {n : ℕ} (hn : n < 16) :
    pic8259aSendEoi pic (BitVec.ofNat 8 n) =
      if n = 7 ∧ pic.master.imr.getLsbD 7 = false then pic.asked.count
      else if n = 15 ∧ pic.slave.imr.getLsbD 7 = false then pic.asked.eoiMaster.count
      else if 8 ≤ n then pic.asked.eoiSlave
      else pic.asked.eoiMaster := by
  have hn' : n % 2 ^ 8 = n := Nat.mod_eq_of_lt (by omega)
  have h7 : BitVec.ofNat 8 n = 7 ↔ n = 7 := by
    rw [← BitVec.toNat_inj, BitVec.toNat_ofNat, hn']
    rfl
  have h15 : BitVec.ofNat 8 n = 15 ↔ n = 15 := by
    rw [← BitVec.toNat_inj, BitVec.toNat_ofNat, hn']
    rfl
  have h8 : 8 ≤ BitVec.ofNat 8 n ↔ 8 ≤ n := by
    rw [BitVec.le_def, BitVec.toNat_ofNat, hn']
    rfl
  rw [sendEoi_eq pic (by rw [BitVec.toNat_ofNat, hn']; exact hn)]
  simp only [h7, h15, h8]

/-- The two lines that the function takes a look at. -/
theorem sendEoi_seven (pic : Pic8259a) :
    pic8259aSendEoi pic (BitVec.ofNat 8 7) =
      if pic.master.imr.getLsbD 7 = false then pic.asked.count else pic.asked.eoiMaster := by
  rw [sendEoi_ofNat pic (show 7 < 16 by decide)]
  simp only [Nat.reduceEqDiff, Nat.reduceLeDiff, true_and, false_and, if_false]

theorem sendEoi_fifteen (pic : Pic8259a) :
    pic8259aSendEoi pic (BitVec.ofNat 8 15) =
      if pic.slave.imr.getLsbD 7 = false then pic.asked.eoiMaster.count
      else pic.asked.eoiSlave := by
  rw [sendEoi_ofNat pic (show 15 < 16 by decide)]
  simp only [Nat.reduceEqDiff, Nat.reduceLeDiff, true_and, false_and, if_false, if_true]

/-- The two masks. -/
def masks (pic : Pic8259a) : BitVec 8 × BitVec 8 := (pic.master.imr, pic.slave.imr)

/-- The end of an interrupt leaves the masks alone. -/
theorem masks_sendEoi (pic : Pic8259a) (i : Interrupt) :
    (pic8259aSendEoi pic i.irq).masks = pic.masks ∧
      (pic.Ready → (pic8259aSendEoi pic i.irq).Ready) := by
  rw [Interrupt.irq, sendEoi_ofNat pic i.line_lt]
  split_ifs <;> exact ⟨rfl, fun h => ⟨h.master, h.slave⟩⟩

theorem masks_accept (pic : Pic8259a) (i : Interrupt) :
    (pic.accept i).masks = pic.masks ∧ (pic.Ready → (pic.accept i).Ready) := by
  cases i with
  | genuine irq =>
    rw [accept]
    split <;> exact ⟨rfl, fun h => ⟨h.master, h.slave⟩⟩
  | spurious7 => exact ⟨rfl, id⟩
  | spurious15 => exact ⟨rfl, fun h => ⟨h.master, h.slave⟩⟩

variable {before : Pic8259a}

/-- Line 2 of the master stays in service without an end of interrupt of its own. -/
theorem isr_accept_cascade_ne (hfree : pic.master.Free 2) :
    (pic.master.accept 2).isr ≠ pic.master.isr := by
  intro hsame
  have hbit := congrArg (·.getLsbD 2) hsame
  simp only [Chip.accept, hfree 2 (le_refl 2), BitVec.getLsbD_or, Bool.false_or] at hbit
  exact absurd hbit (by decide)

theorem spurious_count_ne (pic : Pic8259a) : pic.spurious + 1 ≠ pic.spurious := by
  intro hsame
  exact absurd (BitVec.add_right_eq_self.mp hsame) (by decide)

/-- A device's interrupt. -/
theorem ended_genuine_iff {irq : Fin 16} (haccepts : pic.Accepts (.genuine irq))
    (hmaster : before.master.isr = (pic.accept (.genuine irq)).master.isr)
    (hslave : before.slave.isr = (pic.accept (.genuine irq)).slave.isr) :
    pic.Ended before (pic8259aSendEoi before (BitVec.ofNat 8 irq.val)) (.genuine irq) ↔
      (Interrupt.genuine irq).Fits before.masks := by
  rw [sendEoi_ofNat before irq.isLt, Interrupt.Fits]
  rw [accept] at hmaster hslave
  rw [Accepts] at haccepts
  by_cases hlow : irq.val < 8
  · rw [if_pos hlow] at hmaster hslave haccepts
    have hended : pic.Ended before before.asked.eoiMaster (.genuine irq) := by
      refine ⟨?_, hslave, rfl⟩
      change clearHighest before.master.isr = _
      rw [hmaster]
      exact clearHighest_or hlow haccepts
    have h15 : ¬ irq.val = 15 := by omega
    simp only [h15, hlow.not_ge, false_and, if_false]
    by_cases hcounted : irq.val = 7 ∧ before.master.imr.getLsbD 7 = false
    · rw [if_pos hcounted]
      refine iff_of_false (fun h => spurious_count_ne before h.spurious) ?_
      rintro (hlt | ⟨-, hset⟩)
      · omega
      · exact Bool.false_ne_true (hcounted.2.symm.trans hset)
    · rw [if_neg hcounted]
      refine iff_of_true hended ?_
      by_cases h7 : irq.val = 7
      · refine Or.inr ⟨h7, ?_⟩
        rw [← Bool.not_eq_false]
        exact fun hclear => hcounted ⟨h7, hclear⟩
      · exact Or.inl (by omega)
  · -- line 2 of the master is never ended
    rw [if_neg hlow] at hmaster hslave haccepts
    have h7 : ¬ irq.val = 7 := by omega
    have h8 : 8 ≤ irq.val := by omega
    simp only [h7, h8, false_and, if_false, if_true, or_false]
    refine iff_of_false (fun h => ?_) (by omega)
    split at h
    · exact spurious_count_ne before h.spurious
    · exact isr_accept_cascade_ne haccepts.1 (hmaster.symm.trans h.master)

/-- The end of an interrupt whose handler left the in-service registers as it found them. -/
theorem ended_iff {i : Interrupt} (haccepts : pic.Accepts i)
    (hmaster : before.master.isr = (pic.accept i).master.isr)
    (hslave : before.slave.isr = (pic.accept i).slave.isr) :
    pic.Ended before (pic8259aSendEoi before i.irq) i ↔ i.Fits before.masks := by
  cases i with
  | genuine irq => exact ended_genuine_iff haccepts hmaster hslave
  | spurious7 =>
    change pic.Ended before (pic8259aSendEoi before (BitVec.ofNat 8 7)) _ ↔
      before.master.imr.getLsbD 7 = false
    rw [sendEoi_seven]
    by_cases hclear : before.master.imr.getLsbD 7 = false
    · rw [if_pos hclear]
      exact iff_of_true ⟨hmaster, hslave, rfl⟩ hclear
    · rw [if_neg hclear]
      exact iff_of_false (fun h => spurious_count_ne before h.spurious.symm) hclear
  | spurious15 =>
    change pic.Ended before (pic8259aSendEoi before (BitVec.ofNat 8 15)) _ ↔
      before.slave.imr.getLsbD 7 = false
    rw [sendEoi_fifteen]
    by_cases hclear : before.slave.imr.getLsbD 7 = false
    · rw [if_pos hclear]
      refine iff_of_true ⟨?_, hslave, rfl⟩ hclear
      change clearHighest before.master.isr = _
      rw [hmaster]
      exact clearHighest_or (by decide) haccepts.1
    · rw [if_neg hclear]
      exact iff_of_false (fun h => spurious_count_ne before h.spurious.symm) hclear

end Pic8259a

/-! ## Runs -/

namespace Run

variable {pic : Pic8259a}

/-- What a run does to the masks is what it says. -/
theorem masks_exec (run : Run) (hready : pic.Ready) :
    (run.exec pic).Ready ∧ (run.exec pic).masks = run.masksAfter pic.masks := by
  induction run generalizing pic with
  | done => exact ⟨hready, rfl⟩
  | masks m s rest ih =>
    rw [exec, masksAfter, hready.outportb_masks]
    exact ih (hready.setMasks m s)
  | interrupt i handler rest ihandler irest =>
    obtain ⟨haccept, haccepted⟩ := pic.masks_accept i
    obtain ⟨hbefore, hmasks⟩ := ihandler (haccepted hready)
    obtain ⟨heoi, hended⟩ := (handler.exec (pic.accept i)).masks_sendEoi i
    rw [exec, masksAfter, ← haccept, ← hmasks, ← heoi]
    exact irest (hended hbefore)

/-- A clean run leaves the in-service registers as it found them. -/
theorem Clean.isr {run : Run} (h : run.Clean pic) (hready : pic.Ready) :
    (run.exec pic).master.isr = pic.master.isr ∧ (run.exec pic).slave.isr = pic.slave.isr := by
  induction run generalizing pic with
  | done => exact ⟨rfl, rfl⟩
  | masks m s rest ih =>
    rw [Clean, hready.outportb_masks] at h
    rw [exec, hready.outportb_masks]
    exact ih h (hready.setMasks m s)
  | interrupt i handler rest ihandler irest =>
    obtain ⟨-, hended, hrest⟩ := h
    obtain ⟨-, haccepted⟩ := pic.masks_accept i
    obtain ⟨hbefore, -⟩ := handler.masks_exec (haccepted hready)
    obtain ⟨-, hafter⟩ := (handler.exec (pic.accept i)).masks_sendEoi i
    obtain ⟨hmaster, hslave⟩ := irest hrest (hafter hbefore)
    exact ⟨hmaster.trans hended.master, hslave.trans hended.slave⟩

end Run

/-- **When no line gets stuck.** In every run of interrupts that the chips let through, each ends
with the in-service registers that it found and a right count exactly when each fits the masks at
its end.

By induction on the tree. A handler that was interrupted finds the registers as it left them if
what interrupted it was clean, so the question comes down to a single interrupt and the masks at
its end (`ended_iff`). -/
theorem run_clean_iff (pic : Pic8259a) (hready : pic.Ready) (run : Run) (hlegal : run.Legal pic) :
    run.Clean pic ↔ run.Fit (pic.master.imr, pic.slave.imr) := by
  change _ ↔ run.Fit pic.masks
  induction run generalizing pic with
  | done => exact Iff.rfl
  | masks m s rest ih =>
    rw [Run.Legal, hready.outportb_masks] at hlegal
    rw [Run.Clean, Run.Fit, hready.outportb_masks]
    exact ih _ (hready.setMasks m s) hlegal
  | interrupt i handler rest ihandler irest =>
    obtain ⟨haccepts, hhandler, hrest⟩ := hlegal
    obtain ⟨haccept, haccepted⟩ := pic.masks_accept i
    obtain ⟨hbefore, hmasks⟩ := handler.masks_exec (haccepted hready)
    obtain ⟨heoi, hended⟩ := (handler.exec (pic.accept i)).masks_sendEoi i
    have hfirst := ihandler _ (haccepted hready) hhandler
    have hlast := irest _ (hended hbefore) hrest
    rw [haccept] at hfirst hmasks
    rw [heoi, hmasks] at hlast
    rw [Run.Clean, Run.Fit]
    refine (and_congr_right fun hclean => ?_).trans (and_congr_left' hfirst)
    obtain ⟨hmaster, hslave⟩ := hclean.isr (haccepted hready)
    have hend := Pic8259a.ended_iff haccepts hmaster hslave
    rw [hmasks] at hend
    exact and_congr hend hlast

/-- The keyboard's handler, interrupted by the timer's. -/
theorem run_clean_keyboard :
    (Run.interrupt (.genuine 1) (.interrupt (.genuine 0) .done .done) .done).Clean default := by
  have hkeyboard : Pic8259a.Accepts default (.genuine 1) :=
    show ∀ k ≤ 1, (0 : BitVec 8).getLsbD k = false by decide
  have htimer : (Pic8259a.accept default (.genuine 1)).Accepts (.genuine 0) :=
    show ∀ k ≤ 0, (0 ||| BitVec.twoPow 8 1).getLsbD k = false by decide
  have hlegal : (Run.interrupt (.genuine 1) (.interrupt (.genuine 0) .done .done) .done).Legal
      default := ⟨hkeyboard, ⟨htimer, trivial, trivial⟩, trivial⟩
  refine (run_clean_iff default ⟨rfl, rfl⟩ _ hlegal).mpr ⟨⟨trivial, ?_, trivial⟩, ?_, trivial⟩
  · exact Or.inl (by decide)
  · exact Or.inl (by decide)

/-- The end of an interrupt of the real-time clock leaves the master's line 2 in service. -/
theorem slave_interrupt_stuck :
    (Run.interrupt (.genuine 8) .done .done).Legal default ∧
      ¬ (Run.interrupt (.genuine 8) .done .done).Clean default := by
  have haccepts : Pic8259a.Accepts default (.genuine 8) :=
    ⟨show ∀ k ≤ 2, (0 : BitVec 8).getLsbD k = false by decide,
      show ∀ k ≤ 0, (0 : BitVec 8).getLsbD k = false by decide⟩
  refine ⟨⟨haccepts, trivial, trivial⟩, fun hclean => ?_⟩
  have hfits := (Pic8259a.ended_iff haccepts rfl rfl).mp hclean.2.1
  rcases hfits with hlt | ⟨h7, -⟩
  · exact absurd hlt (by decide)
  · exact absurd h7 (by decide)

end MissyKernel
