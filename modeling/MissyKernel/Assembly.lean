import Mathlib.Data.BitVec
import Mathlib.Logic.Function.Basic
import Mathlib.Logic.Relation
import Mathlib.Tactic

/-!
# Assembly for a 32-bit processor

The instructions that short interrupt routines are written in, over a stack of words,
with symbols for the places of code and data. A program says where the linker put each
symbol, what instruction stands at an address, what the ports do and what the routines in
other languages do; a step is a function. `Leads` is the weakest precondition of a piece
of code, wherever in memory it is placed: one rule for each instruction, and jumps to
labels behind it.

Arithmetic sets the zero flag; the other status flags are not followed. A routine in
another language returns with the stack as it found it, and with any registers.

A program is linked by `link` from lists of lines, and `placed_link` gives the places of its
parts. For code that is interrupted between its lines there is `Program.straight_step`: one line
of a piece of code without jumps is a step with interrupts off, and a change of the world that the
code does not see may come before or after it (`Program.straight_onWorld`).
-/

namespace MissyKernel

namespace Assembly

/-- The general registers, but for the stack pointer. -/
inductive Reg : Type where
  | eax
  | ecx
  | edx
  | ebx
  | ebp
  | esi
  | edi
deriving DecidableEq

/-- An operand of 32 bits. -/
inductive Operand (Sym : Type) : Type where
  /-- a constant; a byte is extended -/
  | imm (w : BitVec 32)
  /-- the address of a symbol -/
  | address (s : Sym)
  /-- the word at a symbol -/
  | variable (s : Sym)
  /-- a register -/
  | reg (r : Reg)
  /-- `cr2`, the address of the last page fault -/
  | faultAddress

/-- The instructions that the next one follows. -/
inductive Instr (Sym : Type) : Type where
  | pushad
  | popad
  | push (o : Operand Sym)
  /-- `pop dword [s]` -/
  | pop (s : Sym)
  /-- `add esp,n` -/
  | addEsp (n : ℕ)
  | mov (r : Reg) (o : Operand Sym)
  | and (r : Reg) (w : BitVec 32)
  | or (r r' : Reg)
  /-- `mov al,b` -/
  | movAl (b : BitVec 8)
  /-- `and al,b` -/
  | andAl (b : BitVec 8)
  /-- `inc dword [s]` -/
  | inc (s : Sym)
  | cli
  /-- `in al,port` -/
  | inAl (port : BitVec 16)
  /-- `out port,al` -/
  | outAl (port : BitVec 16)

/-- A line of code. -/
inductive Line (Sym : Type) : Type where
  | label (s : Sym)
  | op (i : Instr Sym)
  | call (s : Sym)
  | ret
  | iretd
  | jmp (s : Sym)
  | jz (s : Sym)
  | jnz (s : Sym)
  /-- `jmp $` -/
  | hang
deriving Inhabited

/-- Whether the line is a label, which takes no space. -/
def Line.isLabel {Sym : Type} : Line Sym → Bool
  | .label _ => true
  | _ => false

/-- The processor, its stack, the variables of the code, and what it acts on. -/
structure Data (Sym W : Type) : Type where
  /-- the general registers -/
  regs : Reg → BitVec 32
  /-- the flags -/
  eflags : BitVec 32
  /-- the code segment -/
  cs : BitVec 32
  /-- the address of the last page fault -/
  cr2 : BitVec 32
  /-- the stack, its top first -/
  stack : List (BitVec 32)
  /-- the variables -/
  vars : Sym → BitVec 32
  /-- the rest of the system -/
  world : W

/-- The data, and where the next instruction is. -/
structure State (Sym W : Type) : Type where
  /-- `eip` -/
  pc : BitVec 32
  /-- everything else -/
  data : Data Sym W

/-- What a routine in another language leaves behind. -/
structure Returned (W : Type) : Type where
  /-- the registers -/
  regs : Reg → BitVec 32
  /-- the flags -/
  eflags : BitVec 32
  /-- the rest of the system -/
  world : W

/-- A linked program and its surroundings. -/
structure Program (Sym W : Type) : Type where
  /-- where a symbol is -/
  address : Sym → BitVec 32
  /-- the instruction at an address, and the address behind it -/
  text : BitVec 32 → Option (Line Sym × BitVec 32)
  /-- the routines in other languages, given the stack with their arguments -/
  routine : Sym → Option (List (BitVec 32) → W → Option (Returned W))
  /-- a read of a port -/
  input : BitVec 16 → W → BitVec 8 × W
  /-- a write of a port -/
  output : BitVec 16 → BitVec 8 → W → W
  /-- the address behind the empty stack -/
  stackEnd : BitVec 32

namespace Data

variable {Sym W : Type}

/-- The zero flag. -/
def zero (d : Data Sym W) : Bool := d.eflags.getLsbD 6

/-- The interrupt flag. -/
def interruptFlag (d : Data Sym W) : Bool := d.eflags.getLsbD 9

/-- The zero flag after an arithmetic instruction. -/
def setZero (d : Data Sym W) (z : Bool) : Data Sym W :=
  { d with eflags := if z then d.eflags ||| BitVec.twoPow 32 6
      else d.eflags &&& ~~~BitVec.twoPow 32 6 }

/-- A register. -/
def setReg (d : Data Sym W) (r : Reg) (w : BitVec 32) : Data Sym W :=
  { d with regs := Function.update d.regs r w }

/-- `al` -/
def al (d : Data Sym W) : BitVec 8 := (d.regs .eax).setWidth 8

/-- The lowest byte of `eax`. -/
def setAl (d : Data Sym W) (b : BitVec 8) : Data Sym W :=
  d.setReg .eax ((d.regs .eax &&& 0xffffff00) ||| b.setWidth 32)

/-- Everything but the registers, the flags and the rest of the system is the same. -/
structure Keeps (d d' : Data Sym W) : Prop where
  /-- the code segment -/
  cs : d'.cs = d.cs
  /-- the address of the last page fault -/
  cr2 : d'.cr2 = d.cr2
  /-- the stack -/
  stack : d'.stack = d.stack
  /-- the variables -/
  vars : d'.vars = d.vars

/-- A word on the stack. -/
def push (d : Data Sym W) (w : BitVec 32) : Data Sym W := { d with stack := w :: d.stack }

end Data

section

variable {Sym W : Type}

/-- The value of an operand. -/
def Operand.value (p : Program Sym W) (d : Data Sym W) : Operand Sym → BitVec 32
  | .imm w => w
  | .address s => p.address s
  | .variable s => d.vars s
  | .reg r => d.regs r
  | .faultAddress => d.cr2

/-- The stack pointer. -/
def Program.esp (p : Program Sym W) (d : Data Sym W) : BitVec 32 :=
  p.stackEnd - BitVec.ofNat 32 (4 * d.stack.length)

variable [DecidableEq Sym]

/-- What `pushad` puts on the stack. -/
def savedRegs (regs : Reg → BitVec 32) (esp : BitVec 32) : List (BitVec 32) :=
  [regs .edi, regs .esi, regs .ebp, esp, regs .ebx, regs .edx, regs .ecx, regs .eax]

/-- The processor takes an interrupt through an interrupt gate: flags, code segment and
address go on the stack, and behind them the error code of an exception that has one. The
trap and the interrupt flag, and those of nested tasks, of resuming and of virtual mode,
are cleared. -/
def State.interrupt (m : State Sym W) (code : Option (BitVec 32)) (selector offset : BitVec 32) :
    State Sym W where
  pc := offset
  data := { m.data with
    cs := selector
    eflags := m.data.eflags &&& ~~~0x34300
    stack := code.toList ++ m.pc :: m.data.cs :: m.data.eflags :: m.data.stack }

/-- The effect of an instruction; `none` where the stack has too few words, or is cut within
one. -/
def Instr.apply (p : Program Sym W) (d : Data Sym W) : Instr Sym → Option (Data Sym W)
  | .pushad => some { d with stack := savedRegs d.regs (p.esp d) ++ d.stack }
  | .popad =>
    match d.stack with
    | edi :: esi :: ebp :: _ :: ebx :: edx :: ecx :: eax :: rest => some { d with
        regs := fun
          | .eax => eax
          | .ecx => ecx
          | .edx => edx
          | .ebx => ebx
          | .ebp => ebp
          | .esi => esi
          | .edi => edi
        stack := rest }
    | _ => none
  | .push o => some (d.push (o.value p d))
  | .pop s =>
    match d.stack with
    | w :: rest => some { d with stack := rest, vars := Function.update d.vars s w }
    | [] => none
  | .addEsp n =>
    if n % 4 = 0 ∧ n / 4 ≤ d.stack.length then
      let d := { d with stack := d.stack.drop (n / 4) }
      some (d.setZero (p.esp d = 0))
    else none
  | .mov r o => some (d.setReg r (o.value p d))
  | .and r w => some ((d.setReg r (d.regs r &&& w)).setZero (d.regs r &&& w = 0))
  | .or r r' =>
    some ((d.setReg r (d.regs r ||| d.regs r')).setZero (d.regs r ||| d.regs r' = 0))
  | .movAl b => some (d.setAl b)
  | .andAl b => some ((d.setAl (d.al &&& b)).setZero (d.al &&& b = 0))
  | .inc s =>
    some ({ d with vars := Function.update d.vars s (d.vars s + 1) }.setZero (d.vars s + 1 = 0))
  | .cli => some { d with eflags := d.eflags &&& ~~~BitVec.twoPow 32 9 }
  | .inAl port =>
    let (b, world) := p.input port d.world
    some ({ d with world := world }.setAl b)
  | .outAl port => some { d with world := p.output port d.al d.world }

/-- The effect of a line, with the address behind it. -/
def Line.exec (p : Program Sym W) (m : State Sym W) (next : BitVec 32) :
    Line Sym → Option (State Sym W)
  | .label _ => none
  | .op i => (i.apply p m.data).map (⟨next, ·⟩)
  | .call s =>
    match p.routine s with
    | some f => (f m.data.stack m.data.world).map fun r =>
        ⟨next, { m.data with regs := r.regs, eflags := r.eflags, world := r.world }⟩
    | none => some ⟨p.address s, m.data.push next⟩
  | .ret =>
    match m.data.stack with
    | w :: rest => some ⟨w, { m.data with stack := rest }⟩
    | [] => none
  | .iretd =>
    match m.data.stack with
    | eip :: cs :: eflags :: rest =>
      some ⟨eip, { m.data with cs := cs, eflags := eflags, stack := rest }⟩
    | _ => none
  | .jmp s => some ⟨p.address s, m.data⟩
  | .jz s => some ⟨if m.data.zero then p.address s else next, m.data⟩
  | .jnz s => some ⟨if m.data.zero then next else p.address s, m.data⟩
  | .hang => some m

namespace Program

/-- One instruction. -/
def step (p : Program Sym W) (m : State Sym W) : Option (State Sym W) :=
  (p.text m.pc).bind fun (line, next) => line.exec p m next

/-- Any number of instructions. -/
def Reaches (p : Program Sym W) : State Sym W → State Sym W → Prop :=
  Relation.ReflTransGen fun m m' => p.step m = some m'

/-- The processor stays where it is. -/
def Hung (p : Program Sym W) (m : State Sym W) : Prop := p.step m = some m

/-- The code is in memory from the address on, and its labels have their addresses. -/
def Placed (p : Program Sym W) : BitVec 32 → List (Line Sym) → Prop
  | _, [] => True
  | a, .label s :: rest => p.address s = a ∧ p.Placed a rest
  | a, line :: rest => ∃ next, p.text a = some (line, next) ∧ p.Placed next rest

/-- From the code, wherever it is, the processor comes to a state of the postcondition. -/
def Leads (p : Program Sym W) (code : List (Line Sym)) (d : Data Sym W)
    (post : State Sym W → Prop) : Prop :=
  ∀ pc, p.Placed pc code → ∃ m, p.Reaches ⟨pc, d⟩ m ∧ post m

end Program

/-- The routine always returns, with its result in `eax`. -/
def Program.Performs (p : Program Sym W) (s : Sym)
    (effect : List (BitVec 32) → W → BitVec 32 × W) : Prop :=
  ∃ f, p.routine s = some f ∧ ∀ stack w, ∃ r, f stack w = some r ∧
    r.regs .eax = (effect stack w).1 ∧ r.world = (effect stack w).2

/-- The code behind a label. -/
def behind (s : Sym) : List (Line Sym) → List (Line Sym)
  | [] => []
  | .label t :: rest => if t = s then rest else behind s rest
  | _ :: rest => behind s rest

end

/-! ## Flags and registers -/

namespace Data

variable {Sym W : Type} (d : Data Sym W) (z : Bool) (b : BitVec 8)

theorem Keeps.trans {d d' d'' : Data Sym W} (h : d.Keeps d') (h' : d'.Keeps d'') : d.Keeps d'' :=
  ⟨h'.cs.trans h.cs, h'.cr2.trans h.cr2, h'.stack.trans h.stack, h'.vars.trans h.vars⟩

@[simp] theorem zero_setZero : (d.setZero z).zero = z := by
  cases z <;> simp [zero, setZero]

@[simp] theorem regs_setZero : (d.setZero z).regs = d.regs := rfl

@[simp] theorem al_setZero : (d.setZero z).al = d.al := rfl

@[simp] theorem al_setAl : (d.setAl b).al = b := by
  have hreg : (d.setAl b).regs .eax = (d.regs .eax &&& 0xffffff00) ||| b.setWidth 32 := by
    simp [setAl, setReg]
  rw [al, hreg, BitVec.setWidth_or, BitVec.setWidth_and,
    show (0xffffff00 : BitVec 32).setWidth 8 = 0 from rfl]
  simp

end Data

/-- No operand is on the stack. -/
theorem Operand.value_push {Sym W : Type} (p : Program Sym W) (d : Data Sym W) (w : BitVec 32)
    (o : Operand Sym) : o.value p (d.push w) = o.value p d := by
  cases o <;> rfl

/-- Arguments are dropped. -/
theorem Instr.apply_addEsp {Sym W : Type} [DecidableEq Sym] {p : Program Sym W} {d : Data Sym W}
    {n : ℕ} (args : List (BitVec 32)) {stack : List (BitVec 32)} (hn : n = 4 * args.length)
    (hstack : d.stack = args ++ stack) :
    (addEsp n).apply p d = some ({ d with stack := stack }.setZero
      (p.esp { d with stack := stack } = 0)) := by
  have hdrop : d.stack.drop (n / 4) = stack := by
    rw [hstack, hn, Nat.mul_div_cancel_left _ (by decide), List.drop_left]
  rw [apply, if_pos, hdrop]
  rw [hstack, List.length_append]
  omega

/-- `popad` brings back what `pushad` saved. -/
theorem Instr.apply_popad {Sym W : Type} [DecidableEq Sym] {p : Program Sym W} {d : Data Sym W}
    {regs : Reg → BitVec 32} {esp : BitVec 32} {stack : List (BitVec 32)}
    (hstack : d.stack = savedRegs regs esp ++ stack) :
    Instr.popad.apply p d = some { d with regs := regs, stack := stack } := by
  have hregs : (fun
      | .eax => regs .eax
      | .ecx => regs .ecx
      | .edx => regs .edx
      | .ebx => regs .ebx
      | .ebp => regs .ebp
      | .esi => regs .esi
      | .edi => regs .edi : Reg → BitVec 32) = regs := by
    funext r
    cases r <;> rfl
  rw [apply, hstack]
  exact congrArg (fun regs => some { d with regs := regs, stack := stack }) hregs

/-! ## Runs -/

namespace Program

variable {Sym W : Type} {p : Program Sym W} {m m₁ m₂ : State Sym W}

theorem placed_cons {line : Line Sym} {rest : List (Line Sym)} {a : BitVec 32}
    (hline : line.isLabel = false) (h : p.Placed a (line :: rest)) :
    ∃ next, p.text a = some (line, next) ∧ p.Placed next rest := by
  cases line with
  | label s => cases hline
  | op | call | ret | iretd | jmp | jz | jnz | hang => exact h

theorem placed_line {line : Line Sym} {rest : List (Line Sym)} {a next : BitVec 32}
    (hline : line.isLabel = false) (htext : p.text a = some (line, next))
    (hrest : p.Placed next rest) : p.Placed a (line :: rest) := by
  cases line with
  | label s => cases hline
  | op | call | ret | iretd | jmp | jz | jnz | hang => exact ⟨next, htext, hrest⟩

variable [DecidableEq Sym]

theorem placed_behind {s : Sym} {code : List (Line Sym)} {a : BitVec 32} (hs : .label s ∈ code)
    (h : p.Placed a code) : p.Placed (p.address s) (behind s code) := by
  induction code generalizing a with
  | nil => cases hs
  | cons line rest ih =>
    cases line with
    | label t =>
      obtain ⟨rfl, hrest⟩ := h
      rw [behind]
      split
      · rename_i hts
        exact hts ▸ hrest
      · rename_i hts
        refine ih ?_ hrest
        rcases List.mem_cons.mp hs with heq | hmem
        · exact absurd (Line.label.inj heq).symm hts
        · exact hmem
    | op | call | ret | iretd | jmp | jz | jnz | hang =>
      obtain ⟨next, -, hrest⟩ := h
      refine ih ?_ hrest
      rcases List.mem_cons.mp hs with heq | hmem
      · cases heq
      · exact hmem

end Program

/-! ## The rules -/

namespace Program.Leads

variable {Sym W : Type} [DecidableEq Sym] {p : Program Sym W} {code rest : List (Line Sym)}
  {d d' : Data Sym W} {post post' : State Sym W → Prop} {s : Sym}

theorem mono (h : p.Leads code d post) (hpost : ∀ m, post m → post' m) :
    p.Leads code d post' := by
  intro pc hplaced
  obtain ⟨m, hreach, hm⟩ := h pc hplaced
  exact ⟨m, hreach, hpost m hm⟩

/-- The code of a routine, from its first line. -/
theorem entry (h : p.Leads code d post) (hplaced : p.Placed (p.address s) code) :
    ∃ m, p.Reaches ⟨p.address s, d⟩ m ∧ post m := h _ hplaced

/-- A line that is no label. -/
theorem line {line : Line Sym} (hline : line.isLabel = false)
    (h : ∀ pc next, p.Placed next rest → ∃ m m', line.exec p ⟨pc, d⟩ next = some m ∧
      p.Reaches m m' ∧ post m') :
    p.Leads (line :: rest) d post := by
  intro pc hplaced
  obtain ⟨next, htext, hrest⟩ := placed_cons hline hplaced
  obtain ⟨m, m', hexec, hreach, hm'⟩ := h pc next hrest
  refine ⟨m', .head ?_ hreach, hm'⟩
  change (p.text pc).bind _ = _
  rw [htext]
  exact hexec

theorem op {i : Instr Sym} (happly : i.apply p d = some d') (h : p.Leads rest d' post) :
    p.Leads (.op i :: rest) d post := by
  refine line rfl fun pc next hrest => ?_
  obtain ⟨m, hreach, hm⟩ := h next hrest
  exact ⟨_, m, congrArg (Option.map _) happly, hreach, hm⟩

theorem push {o : Operand Sym} (h : p.Leads rest (d.push (o.value p d)) post) :
    p.Leads (.op (.push o) :: rest) d post := op rfl h

theorem pop {w : BitVec 32} {stack : List (BitVec 32)} (hstack : d.stack = w :: stack)
    (h : p.Leads rest { d with stack := stack, vars := Function.update d.vars s w } post) :
    p.Leads (.op (.pop s) :: rest) d post := op (by simp only [Instr.apply, hstack]) h

theorem mov {r : Reg} {o : Operand Sym}
    (h : ∀ d', d.Keeps d' → d'.regs r = o.value p d → d'.world = d.world → p.Leads rest d' post) :
    p.Leads (.op (.mov r o) :: rest) d post :=
  op rfl (h _ ⟨rfl, rfl, rfl, rfl⟩ (by simp [Data.setReg]) rfl)

theorem and {r : Reg} {w : BitVec 32}
    (h : ∀ d', d.Keeps d' → d'.regs r = d.regs r &&& w → d'.zero = decide (d.regs r &&& w = 0) →
      d'.world = d.world → p.Leads rest d' post) :
    p.Leads (.op (.and r w) :: rest) d post :=
  op rfl (h _ ⟨rfl, rfl, rfl, rfl⟩ (by simp [Data.setReg]) (Data.zero_setZero _ _) rfl)

theorem or {r r' : Reg}
    (h : ∀ d', d.Keeps d' → d'.zero = decide (d.regs r ||| d.regs r' = 0) → d'.world = d.world →
      p.Leads rest d' post) :
    p.Leads (.op (.or r r') :: rest) d post :=
  op rfl (h _ ⟨rfl, rfl, rfl, rfl⟩ (Data.zero_setZero _ _) rfl)

theorem label (h : p.Leads rest d post) : p.Leads (.label s :: rest) d post :=
  fun pc hplaced => h pc hplaced.2

/-- A call of a routine in another language. -/
theorem callRoutine {f : List (BitVec 32) → W → Option (Returned W)} {r : Returned W}
    (hs : p.routine s = some f) (hf : f d.stack d.world = some r)
    (h : p.Leads rest { d with regs := r.regs, eflags := r.eflags, world := r.world } post) :
    p.Leads (.call s :: rest) d post := by
  refine line rfl fun pc next hrest => ?_
  obtain ⟨m, hreach, hm⟩ := h next hrest
  refine ⟨_, m, ?_, hreach, hm⟩
  simp only [Line.exec, hs, hf]
  rfl

theorem callPerforms {effect : List (BitVec 32) → W → BitVec 32 × W}
    (hs : p.Performs s effect)
    (h : ∀ d', d.Keeps d' → d'.regs .eax = (effect d.stack d.world).1 →
      d'.world = (effect d.stack d.world).2 → p.Leads rest d' post) :
    p.Leads (.call s :: rest) d post := by
  obtain ⟨f, hf, hreturns⟩ := hs
  obtain ⟨r, hr, heax, hworld⟩ := hreturns d.stack d.world
  exact callRoutine hf hr (h _ ⟨rfl, rfl, rfl, rfl⟩ heax hworld)

/-- A call of a routine that returns. -/
theorem call {body : List (Line Sym)} (mid : Data Sym W → Prop) (hs : p.routine s = none)
    (hbody : p.Placed (p.address s) body)
    (hreturn : ∀ ret, p.Leads body (d.push ret) fun m => m.pc = ret ∧ mid m.data)
    (h : ∀ d', mid d' → p.Leads rest d' post) :
    p.Leads (.call s :: rest) d post := by
  refine line rfl fun pc next hrest => ?_
  obtain ⟨m', hreach', hpc, hmid⟩ := (hreturn next).entry hbody
  obtain ⟨m, hreach, hm⟩ := h m'.data hmid m'.pc (hpc ▸ hrest)
  refine ⟨⟨p.address s, d.push next⟩, m, ?_, hreach'.trans hreach, hm⟩
  simp only [Line.exec, hs]

/-- A call of a routine that does not return. -/
theorem callLast {body : List (Line Sym)} (hs : p.routine s = none)
    (hbody : p.Placed (p.address s) body) (h : ∀ ret, p.Leads body (d.push ret) post) :
    p.Leads (.call s :: rest) d post := by
  refine line rfl fun pc next _ => ?_
  obtain ⟨m, hreach, hm⟩ := (h next).entry hbody
  refine ⟨⟨p.address s, d.push next⟩, m, ?_, hreach, hm⟩
  simp only [Line.exec, hs]

theorem ret {w : BitVec 32} {stack : List (BitVec 32)} (hstack : d.stack = w :: stack)
    (h : post ⟨w, { d with stack := stack }⟩) : p.Leads (.ret :: rest) d post := by
  refine line rfl fun pc next _ => ⟨_, _, ?_, .refl, h⟩
  simp only [Line.exec, hstack]

theorem iretd {eip cs eflags : BitVec 32} {stack : List (BitVec 32)}
    (hstack : d.stack = eip :: cs :: eflags :: stack)
    (h : post ⟨eip, { d with cs := cs, eflags := eflags, stack := stack }⟩) :
    p.Leads (.iretd :: rest) d post := by
  refine line rfl fun pc next _ => ⟨_, _, ?_, .refl, h⟩
  simp only [Line.exec, hstack]

theorem jmp (hs : .label s ∈ rest) (h : p.Leads (behind s rest) d post) :
    p.Leads (.jmp s :: rest) d post := by
  refine line rfl fun pc next hrest => ?_
  obtain ⟨m, hreach, hm⟩ := h _ (placed_behind hs hrest)
  exact ⟨_, m, rfl, hreach, hm⟩

theorem jz (hs : .label s ∈ rest)
    (h : p.Leads (if d.zero then behind s rest else rest) d post) :
    p.Leads (.jz s :: rest) d post := by
  refine line rfl fun pc next hrest => ?_
  by_cases hz : d.zero = true
  · rw [if_pos hz] at h
    obtain ⟨m, hreach, hm⟩ := h _ (placed_behind hs hrest)
    exact ⟨_, m, by rw [Line.exec, if_pos hz], hreach, hm⟩
  · rw [if_neg hz] at h
    obtain ⟨m, hreach, hm⟩ := h next hrest
    exact ⟨_, m, by rw [Line.exec, if_neg hz], hreach, hm⟩

theorem jnz (hs : .label s ∈ rest)
    (h : p.Leads (if d.zero then rest else behind s rest) d post) :
    p.Leads (.jnz s :: rest) d post := by
  refine line rfl fun pc next hrest => ?_
  by_cases hz : d.zero = true
  · rw [if_pos hz] at h
    obtain ⟨m, hreach, hm⟩ := h next hrest
    exact ⟨_, m, by rw [Line.exec, if_pos hz], hreach, hm⟩
  · rw [if_neg hz] at h
    obtain ⟨m, hreach, hm⟩ := h _ (placed_behind hs hrest)
    exact ⟨_, m, by rw [Line.exec, if_neg hz], hreach, hm⟩

theorem hang (h : ∀ pc, p.Hung ⟨pc, d⟩ → post ⟨pc, d⟩) : p.Leads (.hang :: rest) d post := by
  intro pc hplaced
  obtain ⟨next, htext, -⟩ := hplaced
  have hung : p.Hung ⟨pc, d⟩ := by
    change (p.text pc).bind _ = _
    rw [htext]
    rfl
  exact ⟨_, .refl, h pc hung⟩

/-- Arguments are dropped. -/
theorem addEsp {n : ℕ} (args : List (BitVec 32)) {stack : List (BitVec 32)}
    (hn : n = 4 * args.length)
    (hstack : d.stack = args ++ stack)
    (h : ∀ d', Data.Keeps { d with stack := stack } d' → d'.regs = d.regs →
      d'.world = d.world → p.Leads rest d' post) :
    p.Leads (.op (.addEsp n) :: rest) d post :=
  op (Instr.apply_addEsp args hn hstack) (h _ ⟨rfl, rfl, rfl, rfl⟩ rfl rfl)

/-- The registers come back as they were saved. -/
theorem popad {regs : Reg → BitVec 32} {esp : BitVec 32} {stack : List (BitVec 32)}
    (hstack : d.stack = savedRegs regs esp ++ stack)
    (h : p.Leads rest { d with regs := regs, stack := stack } post) :
    p.Leads (.op .popad :: rest) d post := op (Instr.apply_popad hstack) h

end Program.Leads

/-! ## Straight code, while the rest of the system changes -/

section

variable {Sym W : Type} [DecidableEq Sym]

/-- A change of the rest of the system. -/
def Data.onWorld (d : Data Sym W) (f : W → W) : Data Sym W := { d with world := f d.world }

/-- The same on a state. -/
def State.onWorld (m : State Sym W) (f : W → W) : State Sym W := ⟨m.pc, m.data.onWorld f⟩

/-- Whether the line returns from an interrupt. -/
def Line.isReturn : Line Sym → Bool
  | .iretd => true
  | _ => false

/-- The instruction reads no port, and what it writes to one is harmless. -/
def Instr.isHarmless (harmless : BitVec 16 → BitVec 8 → Bool) (d : Data Sym W) : Instr Sym → Bool
  | .inAl _ => false
  | .outAl port => harmless port d.al
  | _ => true

/-- The end of code without jumps that is harmless and returns from an interrupt. -/
def Program.straight (p : Program Sym W) (harmless : BitVec 16 → BitVec 8 → Bool) :
    List (Line Sym) → Data Sym W → Option (State Sym W)
  | .op i :: rest, d =>
    if i.isHarmless harmless d then (i.apply p d).bind (p.straight harmless rest) else none
  | .call s :: rest, d =>
    (p.routine s).bind fun f => (f d.stack d.world).bind fun r =>
      p.straight harmless rest { d with regs := r.regs, eflags := r.eflags, world := r.world }
  | .iretd :: _, d =>
    match d.stack with
    | eip :: cs :: eflags :: rest =>
        some ⟨eip, { d with cs := cs, eflags := eflags, stack := rest }⟩
    | _ => none
  | _, _ => none

/-- The change makes no difference to the routines and to harmless writes. -/
structure Program.Unseen (p : Program Sym W) (harmless : BitVec 16 → BitVec 8 → Bool)
    (f : W → W) : Prop where
  /-- the routines in other languages -/
  routine : ∀ s g, p.routine s = some g → ∀ stack w,
    g stack (f w) = (g stack w).map fun r => { r with world := f r.world }
  /-- the ports -/
  output : ∀ port b w, harmless port b = true → p.output port b (f w) = f (p.output port b w)

variable {p : Program Sym W} {harmless : BitVec 16 → BitVec 8 → Bool} {f : W → W}

theorem Program.straight_op {i : Instr Sym} {rest : List (Line Sym)} {d d' : Data Sym W}
    (hi : i.isHarmless harmless d = true) (happly : i.apply p d = some d') :
    p.straight harmless (.op i :: rest) d = p.straight harmless rest d' := by
  rw [straight, if_pos hi, happly]
  rfl

theorem Program.straight_call {s : Sym} {rest : List (Line Sym)} {d : Data Sym W}
    {effect : List (BitVec 32) → W → BitVec 32 × W} (hs : p.Performs s effect) :
    ∃ regs eflags, p.straight harmless (.call s :: rest) d = p.straight harmless rest
      { d with regs := regs, eflags := eflags, world := (effect d.stack d.world).2 } := by
  obtain ⟨g, hg, hreturns⟩ := hs
  obtain ⟨r, hr, -, hworld⟩ := hreturns d.stack d.world
  refine ⟨r.regs, r.eflags, ?_⟩
  rw [straight, hg, Option.bind_some, hr, Option.bind_some, hworld]

/-- The end of a handler brings back what its beginning saved. -/
theorem Program.straight_return {d : Data Sym W} {regs : Reg → BitVec 32}
    {esp eip cs eflags : BitVec 32} {stack : List (BitVec 32)}
    (hstack : d.stack = savedRegs regs esp ++ eip :: cs :: eflags :: stack) :
    p.straight harmless [.op .popad, .iretd] d =
      some ⟨eip, { d with regs := regs, cs := cs, eflags := eflags, stack := stack }⟩ := by
  rw [straight_op rfl (Instr.apply_popad hstack)]
  rfl

theorem Instr.apply_onWorld (hf : p.Unseen harmless f) (i : Instr Sym) {d : Data Sym W}
    (hi : i.isHarmless harmless d = true) :
    i.apply p (d.onWorld f) = (i.apply p d).map (·.onWorld f) := by
  obtain ⟨regs, eflags, cs, cr2, stack, vars, w⟩ := d
  cases i with
  | inAl port => cases hi
  | outAl port =>
    have houtput := hf.output port _ w hi
    simp only [apply, Data.onWorld, Data.al, Option.map_some] at houtput ⊢
    rw [houtput]
  | push o => cases o <;> rfl
  | mov r o => cases o <;> rfl
  | pop s => cases stack <;> rfl
  | popad =>
    simp only [apply, Data.onWorld]
    split <;> rfl
  | addEsp n =>
    change (if n % 4 = 0 ∧ n / 4 ≤ stack.length then _ else _) =
      Option.map _ (if n % 4 = 0 ∧ n / 4 ≤ stack.length then _ else _)
    by_cases hn : n % 4 = 0 ∧ n / 4 ≤ stack.length
    · rw [if_pos hn, if_pos hn]
      rfl
    · rw [if_neg hn, if_neg hn]
      rfl
  | pushad | and | or | movAl | andAl | inc | cli => rfl

/-- Such a change may come before or after the code. -/
theorem Program.straight_onWorld (hf : p.Unseen harmless f) (code : List (Line Sym))
    (d : Data Sym W) :
    p.straight harmless code (d.onWorld f) = (p.straight harmless code d).map (·.onWorld f) := by
  induction code generalizing d with
  | nil => rfl
  | cons line rest ih =>
    cases line with
    | label | ret | jmp | jz | jnz | hang => rfl
    | op i =>
      have hsame : i.isHarmless harmless (d.onWorld f) = i.isHarmless harmless d := by
        cases i <;> rfl
      rw [straight, straight, hsame]
      by_cases hi : i.isHarmless harmless d = true
      · rw [if_pos hi, if_pos hi, i.apply_onWorld hf hi]
        cases i.apply p d with
        | none => rfl
        | some d' => exact ih d'
      · rw [if_neg hi, if_neg hi]
        rfl
    | call s =>
      simp only [straight, Data.onWorld]
      cases hs : p.routine s with
      | none => rfl
      | some g =>
        simp only [Option.bind_some, hf.routine s g hs]
        cases g d.stack d.world with
        | none => rfl
        | some r => exact ih { d with regs := r.regs, eflags := r.eflags, world := r.world }
    | iretd =>
      simp only [straight, Data.onWorld]
      split <;> rfl

/-- No instruction lets interrupts in. -/
theorem Instr.interruptFlag_apply {i : Instr Sym} {d d' : Data Sym W} (h : i.apply p d = some d')
    (hd : d.interruptFlag = false) : d'.interruptFlag = false := by
  have hzero : ∀ (d : Data Sym W) z, (d.setZero z).interruptFlag = d.interruptFlag := by
    intro d z
    cases z <;> simp [Data.setZero, Data.interruptFlag]
  cases i with
  | popad =>
    simp only [apply] at h
    split at h
    · cases h
      exact hd
    · cases h
  | pop s =>
    simp only [apply] at h
    split at h
    · cases h
      exact hd
    · cases h
  | addEsp n =>
    simp only [apply] at h
    split at h
    · cases h
      exact (hzero _ _).trans hd
    · cases h
  | cli =>
    cases h
    simp [Data.interruptFlag]
  | and | or | andAl | inc =>
    cases h
    exact (hzero _ _).trans hd
  | pushad | push | mov | movAl | inAl | outAl =>
    cases h
    exact hd

/-- One line of such code: the return, or one with interrupts still off. -/
theorem Program.straight_step
    (hflag : ∀ s g, p.routine s = some g → ∀ stack w r, g stack w = some r →
      r.eflags.getLsbD 9 = false)
    {code : List (Line Sym)} {m a : State Sym W} (hplaced : p.Placed m.pc code)
    (hcode : p.straight harmless code m.data = some a) (hoff : m.data.interruptFlag = false) :
    ∃ line next rest m', code = line :: rest ∧ p.text m.pc = some (line, next) ∧
      line.exec p m next = some m' ∧
      (line.isReturn = true ∧ m' = a ∨
        line.isReturn = false ∧ p.Placed m'.pc rest ∧
          p.straight harmless rest m'.data = some a ∧ m'.data.interruptFlag = false) := by
  cases code with
  | nil => cases hcode
  | cons line rest =>
    cases line with
    | label | ret | jmp | jz | jnz | hang => cases hcode
    | op i =>
      obtain ⟨next, htext, hrest⟩ := hplaced
      rw [straight] at hcode
      split at hcode
      · obtain ⟨d', happly, hd'⟩ := Option.bind_eq_some_iff.mp hcode
        exact ⟨_, next, rest, ⟨next, d'⟩, rfl, htext, congrArg (Option.map _) happly,
          .inr ⟨rfl, hrest, hd', Instr.interruptFlag_apply happly hoff⟩⟩
      · cases hcode
    | call s =>
      obtain ⟨next, htext, hrest⟩ := hplaced
      obtain ⟨g, hs, hg⟩ := Option.bind_eq_some_iff.mp hcode
      obtain ⟨r, hr, hd'⟩ := Option.bind_eq_some_iff.mp hg
      refine ⟨_, next, rest, ⟨next, _⟩, rfl, htext, ?_,
        .inr ⟨rfl, hrest, hd', hflag s g hs _ _ r hr⟩⟩
      simp only [Line.exec, hs, hr]
      rfl
    | iretd =>
      obtain ⟨next, htext, hrest⟩ := hplaced
      refine ⟨_, next, rest, a, rfl, htext, ?_, .inl ⟨rfl, rfl⟩⟩
      rw [straight] at hcode
      rw [Line.exec]
      split at hcode
      · exact hcode
      · cases hcode

end

/-! ## A linker -/

section

variable {Sym W : Type}

/-- The symbol of a label. -/
def Line.symbol? : Line Sym → Option Sym
  | .label s => some s
  | _ => none

/-- The lines that take space. -/
def instructions (image : List (Line Sym)) : List (Line Sym) :=
  image.filter fun line => !line.isLabel

variable [DecidableEq Sym]

/-- The number of instructions before a label. -/
def labelIndex (s : Sym) : List (Line Sym) → Option ℕ
  | [] => none
  | .label t :: rest => if t = s then some 0 else labelIndex s rest
  | _ :: rest => (labelIndex s rest).map (· + 1)

/-- The code in memory from address 0 on, one address for each instruction, and everything
else as given. -/
def link (image : List (Line Sym)) (outside : Program Sym W) : Program Sym W :=
  { outside with
    address := fun s => ((labelIndex s image).map (BitVec.ofNat 32)).getD (outside.address s)
    text := fun a => (instructions image)[a.toNat]?.map fun line => (line, a + 1) }

variable {s : Sym} {image pre code post : List (Line Sym)} {outside : Program Sym W}

theorem labelIndex_append (hs : s ∉ pre.filterMap Line.symbol?) :
    labelIndex s (pre ++ .label s :: post) = some (instructions pre).length := by
  induction pre with
  | nil => exact if_pos rfl
  | cons line pre ih =>
    cases line with
    | label t =>
      have ht : t ≠ s := by
        rintro rfl
        exact hs (List.mem_cons_self ..)
      rw [List.cons_append, labelIndex, if_neg ht]
      exact ih fun hmem => hs (List.mem_cons_of_mem _ hmem)
    | op | call | ret | iretd | jmp | jz | jnz | hang =>
      exact congrArg (Option.map _) (ih hs)

/-- Every part of the image is placed behind what comes before it. -/
theorem placed_link (himage : image = pre ++ code ++ post)
    (hlabels : (image.filterMap Line.symbol?).Nodup)
    (hsize : (instructions image).length < 2 ^ 32) :
    (link image outside).Placed (BitVec.ofNat 32 (instructions pre).length) code := by
  induction code generalizing pre with
  | nil => trivial
  | cons line rest ih =>
    have himage' : image = (pre ++ [line]) ++ rest ++ post := by simp [himage]
    have hrest := ih himage'
    rw [instructions, List.filter_append, List.length_append, ← instructions] at hrest
    by_cases hline : line.isLabel = true
    · cases line with
      | label s =>
        have hs : s ∉ pre.filterMap Line.symbol? := by
          intro hmem
          rw [himage, List.append_assoc, List.filterMap_append] at hlabels
          exact (List.nodup_append.mp hlabels).2.2 s hmem s (List.mem_cons_self ..) rfl
        refine ⟨?_, hrest⟩
        change ((labelIndex s image).map _).getD _ = _
        rw [himage, List.append_assoc, List.cons_append, labelIndex_append hs]
        rfl
      | op | call | ret | iretd | jmp | jz | jnz | hang => cases hline
    · rw [Bool.not_eq_true] at hline
      have hone : [line].filter (fun line => !line.isLabel) = [line] := by simp [hline]
      have hall : instructions image =
          instructions pre ++ line :: instructions (rest ++ post) := by
        rw [himage', instructions, List.append_assoc, List.append_assoc, List.filter_append,
          List.filter_append, hone]
        rfl
      have hpre : (BitVec.ofNat 32 (instructions pre).length).toNat =
          (instructions pre).length := by
        rw [hall, List.length_append] at hsize
        exact Nat.mod_eq_of_lt (by omega)
      have htext : (link image outside).text (BitVec.ofNat 32 (instructions pre).length) =
          some (line, BitVec.ofNat 32 (instructions pre).length + 1) := by
        change (instructions image)[_]?.map _ = _
        rw [hpre, hall, List.getElem?_append_right (le_refl _), Nat.sub_self]
        rfl
      rw [hone, List.length_singleton, BitVec.ofNat_add] at hrest
      exact Program.placed_line hline htext hrest

end

end Assembly

end MissyKernel
