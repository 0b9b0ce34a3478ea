import MissyKernel.Pic
import MissyKernel.Runs
import Mathlib.Logic.Function.Basic
import Mathlib.Data.List.Infix

/-!
# The interrupt table (`cpu.c`)

`cpu_driver_init` fills the 256 entries with the default handler and the exception
handlers; `cpu_install_device` puts a routine at the vector behind the line's number.
Entries are written through `install_handler` alone, whose bound lets the index one past
the table through, and the sum that makes the index wraps: the table is right in every run
whose lines stay away from both.

`written` is a ghost field: the indices that `install_handler` stored to, newest first. The
index 256 is the memory behind the table.

An entry is a record of the fields that the processor reads, and a routine is found back from
them (`IsrEntry.IsGate`). `Gates` says that every entry leads to the routine that was installed
last for its vector; it is kept by every call whose line fits, and the condition on lines is
exact (`writesOnly_cpuInstallDevice_iff`).
-/

namespace MissyKernel

/-- `_isr_entry_t` -/
structure IsrEntry : Type where
  /-- `offset_low` -/
  offsetLow : BitVec 16
  /-- `selector` -/
  selector : BitVec 16
  /-- `zero` -/
  zero : BitVec 8
  /-- `type_attribute` -/
  typeAttribute : BitVec 8
  /-- `offset_high` -/
  offsetHigh : BitVec 16

/-- What `cpu.c` takes the address of. -/
structure CpuSymbols : Type where
  /-- the table -/
  interrupts : BitVec 32
  i386Defaulthandler : BitVec 32
  i386Divbyzero : BitVec 32
  i386Debugtrap : BitVec 32
  i386Nmi : BitVec 32
  i386Breakpoint : BitVec 32
  i386Overflow : BitVec 32
  i386Bounderror : BitVec 32
  i386Badopcode : BitVec 32
  i386Deviceerror : BitVec 32
  i386Doublefault : BitVec 32
  i386Invalidtss : BitVec 32
  i386Segnotpresent : BitVec 32
  i386Stacksegfault : BitVec 32
  i386Genprotectfault : BitVec 32
  i386Pagefault : BitVec 32
  i386Fpuexception : BitVec 32
  i386Aligncheck : BitVec 32
  i386Machinecheck : BitVec 32
  i386Simdexception : BitVec 32
  i386Virtualizeexception : BitVec 32
  i386Securityexception : BitVec 32
deriving Inhabited

/-- The processor and the statics of `cpu.c`, with the interrupt controllers. -/
structure Cpu : Type where
  /-- `interrupts`, and what lies behind it -/
  interrupts : ℕ → IsrEntry
  /-- `idt_entry.limit` -/
  idtLimit : BitVec 16
  /-- `idt_entry.base` -/
  idtBase : BitVec 32
  /-- limit and base of the table that the processor uses -/
  idtr : BitVec 16 × BitVec 32
  /-- the interrupt flag -/
  interruptFlag : Bool
  /-- `using_apic` -/
  usingApic : Bool
  /-- the interrupt controllers -/
  pic : Pic8259a
  /-- ghost: the indices that were stored to -/
  written : List ℕ

/-- The statics as the C initialisers leave them, over any interrupt controllers. -/
def Cpu.start (pic : Pic8259a) : Cpu where
  interrupts := fun _ => ⟨0, 0, 0, 0, 0⟩
  idtLimit := 0
  idtBase := 0
  idtr := (0, 0)
  interruptFlag := false
  usingApic := false
  pic := pic
  written := []

/-- A call of `cpu_install_device`. -/
structure InstallCall : Type where
  /-- the line -/
  irq : BitVec 32
  /-- the address of the routine -/
  fnAddress : BitVec 32

namespace Cpu

/-- `stop_interrupts` -/
def stopInterrupts (cpu : Cpu) : Cpu := { cpu with interruptFlag := false }

/-- `start_interrupts` -/
def startInterrupts (cpu : Cpu) : Cpu := { cpu with interruptFlag := true }

/-- `load_idtr` -/
def loadIdtr (cpu : Cpu) : Cpu := { cpu with idtr := (cpu.idtLimit, cpu.idtBase) }

/-- `install_handler` -/
def installHandler (cpu : Cpu) (index : BitVec 32) (flags : BitVec 8) (selector : BitVec 16)
    (routine : BitVec 32) : ℤ × Cpu :=
  if 256 < index.toNat then (-1, cpu)
  else
    (0, { cpu with
      interrupts := Function.update cpu.interrupts index.toNat
        { cpu.interrupts index.toNat with
          offsetLow := (routine &&& 0xffff).setWidth 16
          offsetHigh := (routine >>> 16).setWidth 16
          selector := selector
          typeAttribute := flags }
      written := index.toNat :: cpu.written })

/-- `install_handler` with the gate type and the selector that all callers give it, one
index and routine after the other. -/
def installHandlers (cpu : Cpu) (installs : List (ℕ × BitVec 32)) : Cpu :=
  installs.foldl (fun cpu p => (cpu.installHandler (BitVec.ofNat 32 p.1) 0x8e 0x08 p.2).2) cpu

end Cpu

/-- The indices and routines of `install_cpu_exceptions`. -/
def CpuSymbols.exceptions (sym : CpuSymbols) : List (ℕ × BitVec 32) :=
  [(0, sym.i386Divbyzero), (1, sym.i386Debugtrap), (2, sym.i386Nmi), (3, sym.i386Breakpoint),
    (4, sym.i386Overflow), (5, sym.i386Bounderror), (6, sym.i386Badopcode),
    (7, sym.i386Deviceerror), (8, sym.i386Doublefault), (10, sym.i386Invalidtss),
    (11, sym.i386Segnotpresent), (12, sym.i386Stacksegfault), (13, sym.i386Genprotectfault),
    (14, sym.i386Pagefault), (16, sym.i386Fpuexception), (17, sym.i386Aligncheck),
    (18, sym.i386Machinecheck), (19, sym.i386Simdexception), (20, sym.i386Virtualizeexception),
    (30, sym.i386Securityexception)]

/-- `cpu_driver_init` -/
def cpuDriverInit (sym : CpuSymbols) (cpu : Cpu) : Cpu :=
  let cpu := cpu.stopInterrupts
  let cpu := { cpu with
    interrupts := fun v => if v < 256 then ⟨0, 0, 0, 0, 0⟩ else cpu.interrupts v }
  let cpu := cpu.installHandlers ((List.range 256).map fun i => (i, sym.i386Defaulthandler))
  let cpu := { cpu with idtBase := sym.interrupts, idtLimit := 0x7ff }
  let cpu := (cpu.installHandlers sym.exceptions).loadIdtr
  let cpu := { cpu with pic := pic8259aDisable (pic8259aInitialize cpu.pic 0x20 0x28) }
  cpu.startInterrupts

/-- `cpu_install_device` -/
def cpuInstallDevice (cpu : Cpu) (call : InstallCall) : Cpu :=
  let interruptIdx := call.irq + 0x20
  let cpu := cpu.stopInterrupts
  let cpu := (cpu.installHandler interruptIdx 0x8e 0x08 call.fnAddress).2
  let cpu := cpu.startInterrupts
  if cpu.usingApic then cpu
  else { cpu with pic := pic8259aUnmaskIrq cpu.pic (call.irq.setWidth 8) }

/-- The vector of the line, computed without wrap. -/
def InstallCall.vector (call : InstallCall) : ℕ := 0x20 + call.irq.toNat

/-- The offset of an entry. -/
def IsrEntry.offset (e : IsrEntry) : BitVec 32 := e.offsetHigh ++ e.offsetLow

/-- The entry is a present 32-bit gate in the kernel's code segment, for the routine. -/
structure IsrEntry.IsGate (e : IsrEntry) (routine : BitVec 32) : Prop where
  /-- present, for the system, a 32-bit gate -/
  typeAttribute : e.typeAttribute = 0x8e
  /-- the segment -/
  selector : e.selector = 0x08
  /-- unused -/
  zero : e.zero = 0
  /-- the routine -/
  offset : e.offset = routine

/-- The routine last installed for the vector, the default handler if there is none. -/
def lastInstalled (sym : CpuSymbols) (installs : List (ℕ × BitVec 32)) (v : ℕ) : BitVec 32 :=
  ((installs.reverse.find? (·.1 = v)).map Prod.snd).getD sym.i386Defaulthandler

/-- What a run installs: the exception handlers, then what the calls ask for. -/
def installsOf (sym : CpuSymbols) (calls : List InstallCall) : List (ℕ × BitVec 32) :=
  sym.exceptions ++ calls.map fun call => (call.vector, call.fnAddress)

namespace Cpu

/-- The table has these routines. -/
def Gates (cpu : Cpu) (routine : ℕ → BitVec 32) : Prop :=
  ∀ v < 256, (cpu.interrupts v).IsGate (routine v)

/-- Between the two states the entry of the vector was written, if it has one, and no
other. -/
structure WritesOnly (cpu cpu' : Cpu) (vector : ℕ) : Prop where
  /-- the entries, and what lies behind them -/
  entries : ∀ v, v ≠ vector ∨ 256 ≤ vector → cpu'.interrupts v = cpu.interrupts v
  /-- the stores -/
  written : cpu'.written = if vector < 256 then vector :: cpu.written else cpu.written

variable {cpu : Cpu} {f : ℕ → BitVec 32} {i : ℕ} {routine : BitVec 32}

/-! ## `install_handler` -/

theorem offset_split (routine : BitVec 32) :
    (routine >>> 16).setWidth 16 ++ (routine &&& 0xffff).setWidth 16 = routine := by
  apply BitVec.eq_of_getLsbD_eq
  intro k hk
  rw [BitVec.getLsbD_append]
  by_cases hlow : k < 16
  · have hmask : (0xffff : BitVec 16).getLsbD k = true := by
      rw [show (0xffff : BitVec 16) = BitVec.allOnes 16 by rfl, BitVec.getLsbD_allOnes]
      exact decide_eq_true hlow
    rw [if_pos hlow, BitVec.setWidth_and, BitVec.getLsbD_and,
      show (0xffff : BitVec 32).setWidth 16 = 0xffff from rfl, hmask]
    simp [hlow]
  · rw [if_neg hlow]
    simp [show k - 16 < 16 by omega, show 16 + (k - 16) = k by omega]

theorem installHandler_eq (hi : i ≤ 256) :
    (cpu.installHandler (BitVec.ofNat 32 i) 0x8e 0x08 routine).2 =
      { cpu with
        interrupts := Function.update cpu.interrupts i
          { cpu.interrupts i with
            offsetLow := (routine &&& 0xffff).setWidth 16
            offsetHigh := (routine >>> 16).setWidth 16
            selector := 0x08
            typeAttribute := 0x8e }
        written := i :: cpu.written } := by
  have htoNat : (BitVec.ofNat 32 i).toNat = i := by
    rw [BitVec.toNat_ofNat]
    omega
  rw [installHandler, if_neg (by omega)]
  simp only [htoNat]

theorem installHandler_of_lt {index : BitVec 32} (h : 256 < index.toNat) :
    (cpu.installHandler index 0x8e 0x08 routine).2 = cpu := by
  rw [installHandler, if_pos h]

/-- An entry with an unused byte of zero becomes a gate, the others stay. -/
theorem isGate_installHandler (hi : i ≤ 256) (hzero : (cpu.interrupts i).zero = 0) :
    ((cpu.installHandler (BitVec.ofNat 32 i) 0x8e 0x08 routine).2.interrupts i).IsGate routine := by
  rw [installHandler_eq hi]
  dsimp only
  rw [Function.update_self]
  exact ⟨rfl, rfl, hzero, offset_split routine⟩

theorem interrupts_installHandler {v : ℕ} (hi : i ≤ 256) (hv : v ≠ i) :
    (cpu.installHandler (BitVec.ofNat 32 i) 0x8e 0x08 routine).2.interrupts v =
      cpu.interrupts v := by
  rw [installHandler_eq hi]
  exact Function.update_of_ne hv _ _

theorem Gates.installHandler (h : cpu.Gates f) (hi : i < 256) :
    (cpu.installHandler (BitVec.ofNat 32 i) 0x8e 0x08 routine).2.Gates
      (fun v => if i = v then routine else f v) := by
  intro v hv
  dsimp only
  by_cases hiv : i = v
  · subst hiv
    rw [if_pos rfl]
    exact isGate_installHandler (by omega) (h i hi).zero
  · rw [if_neg hiv, interrupts_installHandler (by omega) (Ne.symm hiv)]
    exact h v hv

/-! ## The last routine installed -/

theorem lastInstalled_append (sym : CpuSymbols) (installs : List (ℕ × BitVec 32))
    (p : ℕ × BitVec 32) (v : ℕ) :
    lastInstalled sym (installs ++ [p]) v =
      if p.1 = v then p.2 else lastInstalled sym installs v := by
  rw [lastInstalled, find?_reverse_concat]
  by_cases hp : p.1 = v
  · rw [if_pos hp, if_pos (decide_eq_true hp)]
    rfl
  · rw [if_neg hp, if_neg (mt of_decide_eq_true hp)]
    rfl

/-- The loops over fixed handlers: each entry gets the last routine installed there. -/
theorem Gates.installHandlers {sym : CpuSymbols} {before installs : List (ℕ × BitVec 32)}
    (h : cpu.Gates (lastInstalled sym before)) (hlt : ∀ p ∈ installs, p.1 < 256) :
    (cpu.installHandlers installs).Gates (lastInstalled sym (before ++ installs)) := by
  induction installs generalizing cpu before with
  | nil =>
    rw [List.append_nil]
    exact h
  | cons p installs ih =>
    obtain ⟨hp, hinstalls⟩ := List.forall_mem_cons.mp hlt
    have hfirst : (cpu.installHandler (BitVec.ofNat 32 p.1) 0x8e 0x08 p.2).2.Gates
        (lastInstalled sym (before ++ [p])) := by
      intro v hv
      rw [lastInstalled_append]
      exact h.installHandler hp v hv
    rw [List.append_cons]
    exact ih hfirst hinstalls

/-- The loop over the cleared table. -/
theorem gates_default {n : ℕ} (hn : n ≤ 256) (hzero : ∀ v < 256, (cpu.interrupts v).zero = 0) :
    (∀ v < n, ((cpu.installHandlers ((List.range n).map fun i => (i, routine))).interrupts
        v).IsGate routine) ∧
      ∀ v < 256, ((cpu.installHandlers ((List.range n).map fun i => (i, routine))).interrupts
        v).zero = 0 := by
  induction n with
  | zero => exact ⟨fun v hv => absurd hv (Nat.not_lt_zero v), hzero⟩
  | succ n ih =>
    obtain ⟨hgates, hzeros⟩ := ih (by omega)
    rw [List.range_succ, List.map_append, installHandlers, List.foldl_append]
    let before := cpu.installHandlers ((List.range n).map fun i => (i, routine))
    let after := (before.installHandler (BitVec.ofNat 32 n) 0x8e 0x08 routine).2
    have hgate : (after.interrupts n).IsGate routine :=
      isGate_installHandler (by omega) (hzeros n (by omega))
    have hothers : ∀ v, v ≠ n → after.interrupts v = before.interrupts v :=
      fun v hv => interrupts_installHandler (by omega) hv
    constructor
    · intro v hv
      by_cases hvn : v = n
      · subst hvn
        exact hgate
      · exact (hothers v hvn).symm ▸ hgates v (by omega)
    · intro v hv
      by_cases hvn : v = n
      · subst hvn
        exact hgate.zero
      · exact (congrArg IsrEntry.zero (hothers v hvn)).trans (hzeros v hv)

theorem exceptions_lt (sym : CpuSymbols) : ∀ p ∈ sym.exceptions, p.1 < 256 := by
  simp [CpuSymbols.exceptions]

/-- The exception handlers, and what the initialisation does around them. -/
theorem gates_exceptions {sym : CpuSymbols} {base : BitVec 32} {limit : BitVec 16}
    {pic : Pic8259a} (h : cpu.Gates (lastInstalled sym [])) :
    ({ (({ cpu with idtBase := base, idtLimit := limit } : Cpu).installHandlers
        sym.exceptions).loadIdtr with pic := pic }.startInterrupts).Gates
      (lastInstalled sym (installsOf sym [])) := by
  have htable : ({ cpu with idtBase := base, idtLimit := limit } : Cpu).Gates
      (lastInstalled sym []) := h
  rw [installsOf, List.map_nil, List.append_nil]
  exact htable.installHandlers (exceptions_lt sym)

/-- After the initialisation. -/
theorem gates_cpuDriverInit (sym : CpuSymbols) (cpu : Cpu) :
    (cpuDriverInit sym cpu).Gates (lastInstalled sym (installsOf sym [])) := by
  have hdefault : ∀ l, List.range 256 = l → (({ cpu.stopInterrupts with
      interrupts := fun v => if v < 256 then ⟨0, 0, 0, 0, 0⟩ else cpu.interrupts v } :
      Cpu).installHandlers (l.map fun i => (i, sym.i386Defaulthandler))).Gates
        (lastInstalled sym []) := by
    rintro l rfl
    refine (gates_default (le_refl 256) fun v hv => ?_).1
    dsimp only
    rw [if_pos hv]
  unfold cpuDriverInit
  generalize hl : List.range 256 = l
  exact gates_exceptions (hdefault l hl)

/-! ## `cpu_install_device` -/

theorem interrupts_cpuInstallDevice (cpu : Cpu) (call : InstallCall) :
    (cpuInstallDevice cpu call).interrupts =
        (cpu.installHandler (call.irq + 0x20) 0x8e 0x08 call.fnAddress).2.interrupts ∧
      (cpuInstallDevice cpu call).written =
        (cpu.installHandler (call.irq + 0x20) 0x8e 0x08 call.fnAddress).2.written := by
  simp only [cpuInstallDevice, installHandler]
  split <;> split <;> exact ⟨rfl, rfl⟩

end Cpu

/-- The lines of a call that keep to the table: not the one behind its end, and none whose
vector wraps. -/
def InstallCall.Fits (call : InstallCall) : Prop :=
  call.irq ≠ 224 ∧ call.irq.toNat < 2 ^ 32 - 32

namespace Cpu

variable {cpu : Cpu} {call : InstallCall}

/-- The index of a call, as the code computes it. -/
theorem toNat_index (call : InstallCall) : (call.irq + 0x20).toNat = call.vector % 2 ^ 32 := by
  rw [BitVec.toNat_add, InstallCall.vector, Nat.add_comm]
  rfl

theorem index_eq (call : InstallCall) : call.irq + 0x20 = BitVec.ofNat 32 call.vector :=
  BitVec.eq_of_toNat_eq (by rw [toNat_index, BitVec.toNat_ofNat])

theorem writesOnly_installHandler {vector : ℕ} (hlt : vector < 256) {routine : BitVec 32} :
    cpu.WritesOnly (cpu.installHandler (BitVec.ofNat 32 vector) 0x8e 0x08 routine).2 vector := by
  constructor
  · rintro v (hv | hv)
    · exact interrupts_installHandler (by omega) hv
    · omega
  · rw [if_pos hlt, installHandler_eq (by omega)]

theorem WritesOnly.cpuInstallDevice {vector : ℕ}
    (h : cpu.WritesOnly (cpu.installHandler (call.irq + 0x20) 0x8e 0x08 call.fnAddress).2
      vector) : cpu.WritesOnly (cpuInstallDevice cpu call) vector := by
  obtain ⟨hinterrupts, hwritten⟩ := interrupts_cpuInstallDevice cpu call
  exact ⟨fun v hv => (congrFun hinterrupts v).trans (h.entries v hv), hwritten.trans h.written⟩

/-- A call writes its own entry and no other exactly when its line fits. -/
theorem writesOnly_cpuInstallDevice_iff (cpu : Cpu) (call : InstallCall) :
    cpu.WritesOnly (cpuInstallDevice cpu call) call.vector ↔ call.Fits := by
  have hindex := toNat_index call
  have hvector : call.vector = 0x20 + call.irq.toNat := rfl
  have hirq : call.irq = 224 ↔ call.irq.toNat = 224 := by
    rw [← BitVec.toNat_inj]
    rfl
  have hbound := call.irq.isLt
  constructor
  · -- the log tells a store that the vector does not ask for
    intro h
    have hwritten := h.written
    rw [(interrupts_cpuInstallDevice cpu call).2, installHandler] at hwritten
    by_contra hfits
    rw [InstallCall.Fits, Ne, hirq] at hfits
    rw [if_neg (show ¬ 256 < (call.irq + 0x20).toNat by omega),
      if_neg (show ¬ call.vector < 256 by omega)] at hwritten
    exact absurd hwritten (List.cons_ne_self _ _)
  · rintro ⟨hne, hlt⟩
    rw [Ne, hirq] at hne
    refine WritesOnly.cpuInstallDevice ?_
    by_cases hin : call.vector < 256
    · rw [index_eq]
      exact writesOnly_installHandler hin
    · rw [installHandler_of_lt (show 256 < (call.irq + 0x20).toNat by omega)]
      exact ⟨fun _ _ => rfl, by rw [if_neg hin]⟩

/-- A call with a line that fits puts its routine at its vector. -/
theorem Gates.cpuInstallDevice {sym : CpuSymbols} {installs : List (ℕ × BitVec 32)}
    (h : cpu.Gates (lastInstalled sym installs)) (hfits : call.Fits) :
    (cpuInstallDevice cpu call).Gates
      (lastInstalled sym (installs ++ [(call.vector, call.fnAddress)])) := by
  have hwrites := (writesOnly_cpuInstallDevice_iff cpu call).mpr hfits
  intro v hv
  rw [lastInstalled_append]
  by_cases hvector : call.vector = v
  · rw [if_pos hvector, (interrupts_cpuInstallDevice cpu call).1, index_eq, hvector]
    exact isGate_installHandler (by omega) (h v hv).zero
  · rw [if_neg hvector, hwrites.entries v (Or.inl (Ne.symm hvector))]
    exact h v hv

end Cpu

/-- **When the interrupt table stays intact.** In every run from the initialisation on, the table
has the routines last installed, and every call writes its own entry and no other, exactly as long
as no line is 224 or one of the last 32 numbers.

The index of a call is its line and 32, in 32 bits: from the last 32 numbers on it wraps to a
vector of the exceptions, and 224 makes it 256, which the test of the bound lets through. -/
theorem interrupt_table_iff (sym : CpuSymbols) (cpu : Cpu) (calls : List InstallCall) :
    ((∀ pre, pre <+: calls → (pre.foldl cpuInstallDevice (cpuDriverInit sym cpu)).Gates
          (lastInstalled sym (installsOf sym pre))) ∧
        ∀ pre call, pre ++ [call] <+: calls →
          (pre.foldl cpuInstallDevice (cpuDriverInit sym cpu)).WritesOnly
            ((pre ++ [call]).foldl cpuInstallDevice (cpuDriverInit sym cpu)) call.vector) ↔
      ∀ call ∈ calls, call.irq ≠ 224 ∧ call.irq.toNat < 2 ^ 32 - 32 := by
  have hstep : ∀ (pre : List InstallCall) (call : InstallCall),
      (pre.foldl cpuInstallDevice (cpuDriverInit sym cpu)).WritesOnly
        ((pre ++ [call]).foldl cpuInstallDevice (cpuDriverInit sym cpu)) call.vector ↔
          call.Fits := by
    intro pre call
    rw [List.foldl_append]
    exact Cpu.writesOnly_cpuInstallDevice_iff _ call
  constructor
  · rintro ⟨-, hwrites⟩ call hcall
    obtain ⟨pre, post, rfl⟩ := List.append_of_mem hcall
    exact (hstep pre call).mp (hwrites pre call ⟨post, by rw [List.append_assoc]; rfl⟩)
  · intro hfits
    refine ⟨fun pre hpre => ?_, fun pre call hpre => (hstep pre call).mpr
      (hfits call (hpre.subset (List.mem_append_right _ (List.mem_singleton_self _))))⟩
    -- from the last call backwards, since the last one decides its vector
    induction pre using List.reverseRecOn with
    | nil => exact Cpu.gates_cpuDriverInit sym cpu
    | append_singleton pre call ih =>
      have hcall := hfits call (hpre.subset (List.mem_append_right _ (List.mem_singleton_self _)))
      rw [List.foldl_append, installsOf, List.map_append, ← List.append_assoc]
      exact (ih ((List.prefix_append _ _).trans hpre)).cpuInstallDevice hcall

/-- A device on line 224 writes behind the table. -/
theorem install_writes_behind_table :
    ¬ (cpuDriverInit default (.start default)).WritesOnly
      (cpuInstallDevice (cpuDriverInit default (.start default)) ⟨224, 0⟩)
      (InstallCall.vector ⟨224, 0⟩) := by
  intro h
  have hfits := (Cpu.writesOnly_cpuInstallDevice_iff _ _).mp h
  exact hfits.1 rfl

end MissyKernel
