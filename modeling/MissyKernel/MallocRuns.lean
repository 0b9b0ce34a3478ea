import Mathlib
import MissyKernel.MallocSpec

/-!
# Runs of allocator calls

Callers hold allocations: they call `malloc` and `free`, and store into what they hold.
From an allocator that was never used, as long as the calls stay clean, every reachable
state represents a heap. So the payloads are apart from each other and from everything
the allocator keeps, and the blocks have all the bytes obtained from `sbrk`.

The invariant is `RunInv`: nothing was called yet, or the state represents a heap (`Represents`)
with the allocations as its live blocks. `Started.call` is the step, `MallocReach.inv` the run.
What the two defects do to a run that is not clean is shown by `swallowed_block` and
`split_header`. Whether a given run is clean can be looked up at the headers that its heaps
have (`MallocCall.LooksClean`).
-/

namespace MissyKernel

variable {σ : Type} {base fuel : ℕ} {sbrk : σ → ℕ → ℕ × σ} {top : σ → ℕ}

/-- What a caller does. -/
inductive MallocCall where
  | malloc (nbytes : ℕ)
  | free (block : ℕ)
  /-- store a byte into an allocation -/
  | store (addr : ℕ) (v : BitVec 8)

/-- The allocator, and the allocations that callers hold: pointer and requested bytes. -/
structure MallocRun (σ : Type) where
  alloc : Allocator σ
  live : List (ℕ × ℕ)

/-- Callers free live pointers, store into live allocations, and ask for sizes that do
not wrap with two headers. -/
def MallocCall.Allowed (st : MallocRun σ) : MallocCall → Prop
  | .malloc nbytes => nbytes + 2 * headerSize < 2 ^ 32
  | .free block => ∃ x ∈ st.live, x.1 = block
  | .store addr _ => ∃ x ∈ st.live, x.1 ≤ addr ∧ addr < x.1 + x.2

instance (st : MallocRun σ) : DecidablePred (MallocCall.Allowed st)
  | .malloc _ => inferInstanceAs (Decidable (_ < _))
  | .free _ => inferInstanceAs (Decidable (∃ x ∈ st.live, _))
  | .store _ _ => inferInstanceAs (Decidable (∃ x ∈ st.live, _))

/-- The call stays off the defects. -/
def MallocCall.Clean (sbrk : σ → ℕ → ℕ × σ) (base : ℕ) (st : MallocRun σ) : MallocCall → Prop
  | .malloc nbytes => MallocClean sbrk base st.alloc nbytes
  | .free block => FreeClean st.alloc block
  | .store _ _ => True

/-- Make the call. A `NULL` from `malloc` is no allocation. -/
def MallocCall.run (sbrk : σ → ℕ → ℕ × σ) (base fuel : ℕ) (st : MallocRun σ) :
    MallocCall → Option (MallocRun σ)
  | .malloc nbytes => (MissyKernel.malloc sbrk base fuel st.alloc nbytes).map fun r =>
      { alloc := r.2, live := if r.1 = 0 then st.live else (r.1, nbytes) :: st.live }
  | .free block => (MissyKernel.free fuel st.alloc block).map fun alloc =>
      { alloc := alloc, live := st.live.eraseP fun x => x.1 = block }
  | .store addr v =>
      some { st with alloc := { st.alloc with mem := st.alloc.mem.write8 addr v } }

/-- The states of runs whose calls are allowed and meet `P`. -/
inductive MallocReach (sbrk : σ → ℕ → ℕ × σ) (base : ℕ)
    (P : MallocRun σ → MallocCall → Prop) (start : MallocRun σ) : MallocRun σ → Prop
  | start : MallocReach sbrk base P start start
  | call {st st' : MallocRun σ} {c : MallocCall} {fuel : ℕ} (h : MallocReach sbrk base P start st)
      (hallowed : c.Allowed st) (hc : P st c) (hrun : c.run sbrk base fuel st = some st') :
      MallocReach sbrk base P start st'

/-- The empty heap: the allocator was never used, and `_base` lies in the kernel image,
below the break that `sbrk` starts from. -/
structure EmptyHeap (base : ℕ) (top : σ → ℕ) (start : Allocator σ) : Prop where
  unused : start.nextFree = 0
  basePos : 0 < base
  baseBelow : base + headerSize ≤ top start.system
  inMemory : top start.system < 2 ^ 32

/-! ## What is promised -/

/-- The bytes of an allocation. -/
def payload (x : ℕ × ℕ) : Set ℕ := Set.Ico x.1 (x.1 + x.2)

/-- Heap safety, with `[lo, hi)` the memory obtained from `sbrk`. -/
structure HeapSafe (lo hi : ℕ) (st : MallocRun σ) : Prop where
  /-- allocations lie in the memory of the heap -/
  inside : ∀ x ∈ st.live, lo ≤ x.1 ∧ x.1 + x.2 ≤ hi
  /-- no two of them overlap -/
  disjoint : st.live.Pairwise fun x y => Disjoint (payload x) (payload y)
  /-- they are apart from the headers of live blocks -/
  headers : ∀ x ∈ st.live, ∀ y ∈ st.live, Disjoint (payload x) (Set.Ico (y.1 - headerSize) y.1)
  /-- and from the headers and the bytes of the blocks on the free list -/
  freeBlocks : ∀ x ∈ st.live, ∀ header, OnList st.alloc header →
    Disjoint (payload x) (Set.Ico header (header + headerSize)) ∧
      Disjoint (payload x) (Set.Ico header (header + size st.alloc.mem header))

/-- Allowed and clean calls return. -/
def CallsReturn (sbrk : σ → ℕ → ℕ × σ) (base : ℕ) (st : MallocRun σ) : Prop :=
  ∀ c : MallocCall, c.Allowed st → c.Clean sbrk base st →
    ∃ fuel st', c.run sbrk base fuel st = some st'

/-- The free list and the byte total; `rest` is the list behind `_next_free`. -/
structure ListConserves (base lo hi : ℕ) (st : MallocRun σ) (rest : List ℕ) : Prop where
  /-- following `next` from `_next_free` returns to it -/
  circular : Path (next st.alloc.mem) st.alloc.nextFree rest st.alloc.nextFree
  /-- and not earlier -/
  once : (st.alloc.nextFree :: rest).Nodup
  /-- on the way it passes through `_base` -/
  throughBase : base ∈ st.alloc.nextFree :: rest
  /-- addresses increase except for one wrap -/
  wrapsOnce : (st.alloc.nextFree :: rest).countP
    (fun header => next st.alloc.mem header ≤ header) = 1
  /-- free and live blocks together have the bytes obtained from `sbrk` -/
  conserved : lo + (((st.alloc.nextFree :: rest).map (size st.alloc.mem)).sum +
    (st.live.map fun x => x.2 + headerSize).sum) = hi

/-! ## The invariant -/

/-- The block of an allocation. -/
def liveBlock (x : ℕ × ℕ) : Block := ⟨x.1 - headerSize, x.2 + headerSize⟩

/-- The state represents a heap with the allocations as its live blocks. -/
def Represents (base lo : ℕ) (top : σ → ℕ) (st : MallocRun σ) (avail : List Block) : Prop :=
  Rep base lo (top st.alloc.system) st.alloc avail (st.live.map liveBlock)

/-- Before the first call nothing is represented yet. -/
def RunInv (base lo : ℕ) (top : σ → ℕ) (st : MallocRun σ) : Prop :=
  (EmptyHeap base top st.alloc ∧ st.live = [] ∧ top st.alloc.system = lo) ∨
    ∃ avail, Represents base lo top st avail

theorem MallocCall.run_mono {st : MallocRun σ} {c : MallocCall} {fuel' : ℕ} {r : MallocRun σ}
    (h : c.run sbrk base fuel st = some r) (hle : fuel ≤ fuel') :
    c.run sbrk base fuel' st = some r := by
  cases c with
  | malloc nbytes =>
    obtain ⟨r, hcall, heq⟩ := Option.map_eq_some_iff.mp h
    exact Option.map_eq_some_iff.mpr ⟨r, malloc_mono hcall hle, heq⟩
  | free block =>
    obtain ⟨r, hcall, heq⟩ := Option.map_eq_some_iff.mp h
    exact Option.map_eq_some_iff.mpr ⟨r, free_mono hcall hle, heq⟩
  | store addr v => exact h

/-- The result of a call does not depend on the bound. -/
theorem MallocCall.run_unique {st r r' : MallocRun σ} {c : MallocCall} {fuel' : ℕ}
    (h : c.run sbrk base fuel st = some r) (h' : c.run sbrk base fuel' st = some r') : r = r' :=
  Option.some_injective _ <|
    (run_mono h (Nat.le_max_left fuel fuel')).symm.trans (run_mono h' (Nat.le_max_right fuel fuel'))

/-- The block of an allocation of a represented heap, and its pointer. -/
theorem Represents.mem_block {lo : ℕ} {st : MallocRun σ} {avail : List Block}
    (h : Represents base lo top st avail) {x : ℕ × ℕ} (hx : x ∈ st.live) :
    liveBlock x ∈ avail ++ st.live.map liveBlock ∧ (liveBlock x).addr + 8 = x.1 := by
  have hmem : liveBlock x ∈ avail ++ st.live.map liveBlock :=
    List.mem_append_right _ (List.mem_map_of_mem hx)
  have hin := h.blocks.inside _ hmem
  have hpos := h.basePos
  have hbelow := h.baseBelow
  simp only [liveBlock, headerSize] at hin ⊢
  exact ⟨hmem, by omega⟩

/-- A store into an allocation touches no header. -/
theorem Represents.store {lo a : ℕ} {st : MallocRun σ} {avail : List Block} {v : BitVec 8}
    (h : Represents base lo top st avail) {x : ℕ × ℕ} (hx : x ∈ st.live) (hle : x.1 ≤ a)
    (hlt : a < x.1 + x.2) :
    Represents base lo top
      { st with alloc := { st.alloc with mem := st.alloc.mem.write8 a v } } avail := by
  obtain ⟨hmem, haddr⟩ := h.mem_block hx
  have houtside : ∀ y ∈ base :: (avail ++ st.live.map liveBlock).map Block.addr,
      a < y ∨ y + 8 ≤ a := fun y hy => by
    by_cases heq : y = (liveBlock x).addr
    · omega
    · have hapart := Rep.apart_block h hy hmem heq
      simp only [liveBlock, Block.fin, headerSize] at hapart haddr
      omega
  refine Rep.congr h rfl (fun y hy => ?_) fun y hy => ?_
  · have hy := houtside y (Rep.mem_nodes_of_list _ hy)
    exact Mem.read32_write8_of_outside (by omega)
  · have hy := houtside y hy
    exact Mem.read32_write8_of_outside (by omega)

/-- With its list set up the state represents a heap; where there is something to free, the
list is set up already. -/
structure Started (base lo : ℕ) (top : σ → ℕ) (st : MallocRun σ) (avail : List Block) : Prop where
  rep : Rep base lo (top st.alloc.system) (startList base st.alloc) avail (st.live.map liveBlock)
  used : st.live = [] ∨ startList base st.alloc = st.alloc

/-- A represented heap has its list set up. -/
theorem Represents.started {lo : ℕ} {st : MallocRun σ} {avail : List Block}
    (h : Represents base lo top st avail) : Started base lo top st avail :=
  ⟨(Rep.startList_eq h).symm ▸ h, .inr (Rep.startList_eq h)⟩

/-- The first call finds no list and makes the empty one. -/
theorem EmptyHeap.started {start : Allocator σ} (h : EmptyHeap base top start) :
    Started base (top start.system) top ⟨start, []⟩ [] :=
  ⟨Rep.startList h.unused h.basePos h.baseBelow h.inMemory, .inl rfl⟩

theorem RunInv.exists_started {lo : ℕ} {st : MallocRun σ} (h : RunInv base lo top st) :
    ∃ avail, Started base lo top st avail := by
  obtain ⟨alloc, live⟩ := st
  rcases h with ⟨hempty, rfl, rfl⟩ | ⟨avail, hrep⟩
  · exact ⟨[], hempty.started⟩
  · exact ⟨avail, hrep.started⟩

/-- The break is not touched while the list is set up. -/
theorem Started.startRep {lo : ℕ} {st : MallocRun σ} {avail : List Block}
    (h : Started base lo top st avail) :
    Rep base lo (top (startList base st.alloc).system) (startList base st.alloc) avail
      (st.live.map liveBlock) := by
  rw [startList_system]
  exact h.rep

/-- A clean `malloc`, with the list set up or not. -/
theorem Started.malloc {lo n : ℕ} (hsbrk : ContiguousSbrk sbrk top) {st : MallocRun σ}
    {avail : List Block} (h : Started base lo top st avail) (hn : n + 16 < 2 ^ 32)
    (hclean : MallocClean sbrk base st.alloc n) :
    ∃ fuel p alloc, MissyKernel.malloc sbrk base fuel st.alloc n = some (p, alloc) ∧
      MallocOutcome sbrk top base lo avail (st.live.map liveBlock) (startList base st.alloc) n p
        alloc := by
  have hclean' : MallocClean sbrk base (startList base st.alloc) n := by
    unfold MallocClean
    rw [h.rep.startList_eq]
    exact hclean
  obtain ⟨fuel, p, alloc, hcall, houtcome⟩ := h.startRep.malloc hsbrk hn hclean'
  rw [h.rep.malloc_startList] at hcall
  exact ⟨fuel, p, alloc, hcall, houtcome⟩

/-- The call asks for a multiple of `m` bytes, if for any. -/
def MallocCall.MultipleOf (m : ℕ) : MallocCall → Prop
  | .malloc nbytes => m ∣ nbytes
  | .free _ => True
  | .store _ _ => True

instance (m : ℕ) : DecidablePred (MallocCall.MultipleOf m)
  | .malloc _ => inferInstanceAs (Decidable (_ ∣ _))
  | .free _ => inferInstanceAs (Decidable True)
  | .store _ _ => inferInstanceAs (Decidable True)

/-- A call returns and leaves a represented heap, and what is a multiple of `m` stays one. -/
def CallKeeps (sbrk : σ → ℕ → ℕ × σ) (top : σ → ℕ) (base lo : ℕ) (st : MallocRun σ)
    (avail : List Block) (c : MallocCall) : Prop :=
  ∃ fuel st' avail', c.run sbrk base fuel st = some st' ∧ Represents base lo top st' avail' ∧
    ∀ m, m ∣ headerSize → c.MultipleOf m → m ∣ top st.alloc.system →
      BlocksAligned m (avail ++ st.live.map liveBlock) →
      m ∣ top st'.alloc.system ∧ BlocksAligned m (avail' ++ st'.live.map liveBlock)

/-- `malloc` takes its block out of the free ones, or finds none. -/
theorem Started.callMalloc {lo : ℕ} (hsbrk : ContiguousSbrk sbrk top) {st : MallocRun σ}
    {avail : List Block} (h : Started base lo top st avail) {nbytes : ℕ}
    (hallowed : (MallocCall.malloc nbytes).Allowed st)
    (hclean : (MallocCall.malloc nbytes).Clean sbrk base st) :
    CallKeeps sbrk top base lo st avail (.malloc nbytes) := by
  obtain ⟨fuel, p, alloc, hcall, houtcome⟩ := h.malloc hsbrk hallowed hclean
  have hrun : (MallocCall.malloc nbytes).run sbrk base fuel st = some
      { alloc := alloc, live := if p = 0 then st.live else (p, nbytes) :: st.live } :=
    Option.map_eq_some_iff.mpr ⟨_, hcall, rfl⟩
  rcases houtcome.blocks hsbrk h.startRep with
    ⟨rfl, avail', hrep, hkeeps⟩ | ⟨c, avail', rfl, hsize, hrep, hkeeps⟩
  · refine ⟨fuel, _, avail', hrun, hrep, fun m h8 hn htop haligned => ?_⟩
    obtain ⟨havail, hlive⟩ := blocksAligned_append.mp haligned
    obtain ⟨htop, havail⟩ := hkeeps m h8 hn (startList_system base st.alloc ▸ htop) havail
    exact ⟨htop, blocksAligned_append.mpr ⟨havail, hlive⟩⟩
  · have hblock : liveBlock (c.addr + headerSize, nbytes) = c := by
      rw [liveBlock, Nat.add_sub_cancel, ← hsize]
    have hlive : (if c.addr + headerSize = 0 then st.live
        else (c.addr + headerSize, nbytes) :: st.live).map liveBlock =
        c :: st.live.map liveBlock := by
      have hpos : c.addr + headerSize ≠ 0 := Nat.succ_ne_zero (c.addr + 7)
      rw [if_neg hpos, List.map_cons, hblock]
    refine ⟨fuel, _, avail', hrun, ?_, fun m h8 hn htop haligned => ?_⟩
    · rw [Represents, hlive]
      exact hrep
    · obtain ⟨havail, hold⟩ := blocksAligned_append.mp haligned
      obtain ⟨htop, havail⟩ := hkeeps m h8 hn (startList_system base st.alloc ▸ htop) havail
      obtain ⟨hc, havail⟩ := blocksAligned_cons.mp havail
      rw [hlive]
      exact ⟨htop, blocksAligned_append.mpr ⟨havail, blocksAligned_cons.mpr ⟨hc, hold⟩⟩⟩

/-- `free` moves its block over to the free ones. -/
theorem Started.callFree {lo : ℕ} {st : MallocRun σ} {avail : List Block}
    (h : Started base lo top st avail) {block : ℕ}
    (hallowed : (MallocCall.free block).Allowed st)
    (hclean : (MallocCall.free block).Clean sbrk base st) :
    CallKeeps sbrk top base lo st avail (.free block) := by
  obtain ⟨hrep, hused⟩ := h
  obtain ⟨x, hx, rfl⟩ := hallowed
  have hused := hused.resolve_left (List.ne_nil_of_mem hx)
  rw [hused] at hrep
  obtain ⟨y, l₁, l₂, -, hy, hlive, herase⟩ :=
    List.exists_of_eraseP (p := fun y => decide (y.1 = x.1)) hx (decide_eq_true rfl)
  have hy := of_decide_eq_true hy
  have hperm : (st.live.map liveBlock).Perm (liveBlock y :: (l₁ ++ l₂).map liveBlock) := by
    rw [hlive, List.map_append, List.map_append, List.map_cons]
    exact List.perm_middle
  have haddr : (liveBlock y).addr + 8 = x.1 :=
    (Represents.mem_block hrep (hlive ▸ List.mem_append_right l₁ List.mem_cons_self)).2.trans hy
  obtain ⟨fuel, alloc, avail', hcall, hsystem, hrep', havail⟩ :=
    (hrep.permLive hperm).free (haddr.symm ▸ hclean)
  rw [haddr] at hcall
  refine ⟨fuel, _, avail', Option.map_eq_some_iff.mpr ⟨_, hcall, rfl⟩, ?_,
    fun m _ _ htop haligned => ?_⟩
  · rw [Represents, herase, hsystem]
    exact hrep'
  · rw [herase, hsystem]
    refine ⟨htop, haligned.perm ?_⟩
    exact ((hperm.append_left avail).trans List.perm_middle).trans
      (havail.symm.append_right ((l₁ ++ l₂).map liveBlock))

/-- **A step.** An allowed and clean call returns, and leaves a represented heap. What is a
multiple of `m` stays one. -/
theorem Started.call {lo : ℕ} (hsbrk : ContiguousSbrk sbrk top) {st : MallocRun σ}
    {avail : List Block} (h : Started base lo top st avail) {c : MallocCall}
    (hallowed : c.Allowed st) (hclean : c.Clean sbrk base st) :
    CallKeeps sbrk top base lo st avail c := by
  cases c with
  | malloc nbytes => exact h.callMalloc hsbrk hallowed hclean
  | free block => exact h.callFree hallowed hclean
  | store addr v =>
    obtain ⟨hrep, hused⟩ := h
    obtain ⟨x, hx, hle, hlt⟩ := hallowed
    have hused := hused.resolve_left (List.ne_nil_of_mem hx)
    rw [hused] at hrep
    exact ⟨0, _, avail, rfl, Represents.store hrep hx hle hlt, fun m _ _ htop haligned =>
      ⟨htop, haligned⟩⟩

theorem RunInv.call {lo : ℕ} (hsbrk : ContiguousSbrk sbrk top) {st : MallocRun σ}
    (h : RunInv base lo top st) {c : MallocCall} (hallowed : c.Allowed st)
    (hclean : c.Clean sbrk base st) :
    ∃ fuel st', c.run sbrk base fuel st = some st' ∧
      ∃ avail, Represents base lo top st' avail := by
  obtain ⟨avail, hstarted⟩ := h.exists_started
  obtain ⟨fuel, st', avail', hrun, hrep, -⟩ := hstarted.call hsbrk hallowed hclean
  exact ⟨fuel, st', hrun, avail', hrep⟩

/-- The invariant holds after any run of clean calls. -/
theorem MallocReach.inv {start : Allocator σ} {st : MallocRun σ}
    (h : MallocReach sbrk base (fun st c => c.Clean sbrk base st) ⟨start, []⟩ st)
    (hsbrk : ContiguousSbrk sbrk top) (hstart : EmptyHeap base top start) :
    RunInv base (top start.system) top st := by
  induction h with
  | start => exact .inl ⟨hstart, rfl, rfl⟩
  | call _ hallowed hclean hrun ih =>
    obtain ⟨_, _, hrun', havail⟩ := ih.call hsbrk hallowed hclean
    exact .inr (MallocCall.run_unique hrun hrun' ▸ havail)

/-! ## From the invariant -/

theorem disjoint_Ico_of_le {a b c d : ℕ} (h : b ≤ c ∨ d ≤ a) :
    Disjoint (Set.Ico a b) (Set.Ico c d) := by
  refine Set.disjoint_left.mpr fun x hx hx' => ?_
  have h1 := Set.mem_Ico.mp hx
  have h2 := Set.mem_Ico.mp hx'
  omega

theorem Represents.heapSafe {lo : ℕ} {st : MallocRun σ} {avail : List Block}
    (h : Represents base lo top st avail) : HeapSafe lo (top st.alloc.system) st where
  inside x hx := by
    obtain ⟨hmem, haddr⟩ := h.mem_block hx
    have hin := h.blocks.inside _ hmem
    simp only [liveBlock, Block.fin, headerSize] at hin haddr
    omega
  disjoint := by
    have hapart := (List.pairwise_append.mp h.blocks.apart).2.1
    refine (List.pairwise_map.mp hapart).imp_of_mem fun {x y} hx hy hxy => ?_
    have hx := (h.mem_block hx).2
    have hy := (h.mem_block hy).2
    refine disjoint_Ico_of_le ?_
    simp only [liveBlock, Block.Apart, Block.fin, headerSize] at hxy hx hy
    omega
  headers x hx y hy := by
    obtain ⟨hmem, hx⟩ := h.mem_block hx
    obtain ⟨hmem', hy⟩ := h.mem_block hy
    refine disjoint_Ico_of_le ?_
    by_cases heq : liveBlock x = liveBlock y
    · rw [headerSize]
      rw [heq] at hx
      omega
    · have hapart := h.blocks.apart_of_mem hmem hmem' heq
      simp only [liveBlock, Block.Apart, Block.fin, headerSize] at hapart hx hy ⊢
      omega
  freeBlocks x hx header hheader := by
    obtain ⟨hmem, hx'⟩ := h.mem_block hx
    rcases List.mem_cons.mp (h.onList.mp hheader) with rfl | hheader
    · have hbelow := h.baseBelow
      have hin := h.blocks.inside _ hmem
      have hsize := h.baseSize
      rw [hsize, headerSize]
      exact ⟨disjoint_Ico_of_le (by omega), disjoint_Ico_of_le (by omega)⟩
    · obtain ⟨b, hb, rfl⟩ := List.mem_map.mp hheader
      have hb' := List.mem_append_left (st.live.map liveBlock) hb
      have hne : liveBlock x ≠ b := fun heq =>
        (List.nodup_append.mp (h.blocks.nodup (by decide))).2.2 b hb _
          (List.mem_map_of_mem hx) heq.symm
      have hapart := h.blocks.apart_of_mem hmem hb' hne
      have hbig := h.blocks.big b hb'
      rw [h.sizes b hb', headerSize]
      simp only [liveBlock, Block.Apart, Block.fin, headerSize] at hapart hx'
      exact ⟨disjoint_Ico_of_le (by omega), disjoint_Ico_of_le (by omega)⟩

theorem Represents.listConserves {lo : ℕ} {st : MallocRun σ} {avail : List Block}
    (h : Represents base lo top st avail) :
    ∃ rest, ListConserves base lo (top st.alloc.system) st rest := by
  obtain ⟨rest, hrotated, hperm⟩ := h.ring.rotate h.current
  refine ⟨rest, hrotated, hperm.nodup_iff.mpr h.nodup, hperm.mem_iff.mpr List.mem_cons_self, ?_, ?_⟩
  · rw [hperm.countP_eq]
    exact h.ring.countP_wrap h.ascending_base (Nat.le_refl base)
  · have hsizes : (avail.map Block.addr).map (size st.alloc.mem) = avail.map Block.size := by
      rw [List.map_map]
      exact List.map_congr_left fun b hb => h.sizes b (List.mem_append_left _ hb)
    have hlive : (st.live.map liveBlock).map Block.size =
        st.live.map fun x => x.2 + headerSize := by
      rw [List.map_map]
      rfl
    rw [(hperm.map (size st.alloc.mem)).sum_eq, List.map_cons, List.sum_cons, h.baseSize, hsizes,
      ← hlive, Nat.zero_add, ← List.sum_append, ← List.map_append]
    exact h.blocks.total

/-! ## The runs -/

/-- **Heap safety.** In every run of clean calls from the empty heap the allocations stay in the
memory obtained from `sbrk`, apart from each other and from everything the allocator keeps, and
every clean call returns.

The invariant `RunInv` represents the state as a heap, with the allocations as live blocks that do
not overlap each other or a free one; what is promised is read off it (`Represents.heapSafe`). -/
theorem heap_safe (hsbrk : ContiguousSbrk sbrk top) {start : Allocator σ} {st : MallocRun σ}
    (hstart : EmptyHeap base top start)
    (h : MallocReach sbrk base (fun st c => c.Clean sbrk base st) ⟨start, []⟩ st) :
    HeapSafe (top start.system) (top st.alloc.system) st ∧ CallsReturn sbrk base st := by
  have hinv := h.inv hsbrk hstart
  refine ⟨?_, fun c hallowed hclean => ?_⟩
  · rcases hinv with ⟨-, hlive, -⟩ | ⟨avail, hrep⟩
    · exact ⟨by simp [hlive], by simp [hlive], by simp [hlive], by simp [hlive]⟩
    · exact hrep.heapSafe
  · obtain ⟨fuel, st', hrun, -⟩ := hinv.call hsbrk hallowed hclean
    exact ⟨fuel, st', hrun⟩

/-- **The free list, and conservation of bytes.** After every call of a run of clean calls from the
empty heap the free list is circular through `_base` with one wrap, and free and live blocks have
the bytes obtained from `sbrk`.

The list from `_next_free` is a rotation of the one from `_base`, where the addresses go up; so it
has one wrap, wherever it is entered. The bytes are those of a range cut into blocks. -/
theorem free_list_conserves (hsbrk : ContiguousSbrk sbrk top) {start : Allocator σ}
    {st st' : MallocRun σ} {c : MallocCall} (hstart : EmptyHeap base top start)
    (h : MallocReach sbrk base (fun st c => c.Clean sbrk base st) ⟨start, []⟩ st)
    (hallowed : c.Allowed st) (hclean : c.Clean sbrk base st)
    (hrun : c.run sbrk base fuel st = some st') :
    ∃ rest, ListConserves base (top start.system) (top st'.alloc.system) st' rest := by
  obtain ⟨_, _, hrun', avail, hrep⟩ := (h.inv hsbrk hstart).call hsbrk hallowed hclean
  rw [MallocCall.run_unique hrun hrun']
  exact hrep.listConserves

/-! ## A heap at a fixed place -/

/-- An `sbrk` that gives what fits below the end of the address space. -/
def bumpSbrk (brk size : ℕ) : ℕ × ℕ :=
  if brk + size < 2 ^ 32 then (brk, brk + size) else (sbrkFailed, brk)

theorem bumpSbrk_contiguous : ContiguousSbrk bumpSbrk id where
  granted brk size h := by
    unfold bumpSbrk at h ⊢
    by_cases hfits : brk + size < 2 ^ 32
    · rw [if_pos hfits]
      exact ⟨rfl, rfl, hfits⟩
    · rw [if_neg hfits] at h
      exact absurd rfl h
  failed brk size h := by
    unfold bumpSbrk at h ⊢
    by_cases hfits : brk + size < 2 ^ 32
    · rw [if_pos hfits] at h ⊢
      have hbrk : brk = 2 ^ 32 - 1 := h
      have hsize : size = 0 := by omega
      rw [hsize]
      rfl
    · rw [if_neg hfits]

/-- An allocator that was never used, with `_base` at `0x1000` and the heap at `0x2000`. -/
def bumpHeap : Allocator ℕ := ⟨fun _ => 0, 0, 0, 0x2000⟩

theorem bumpHeap_empty : EmptyHeap 0x1000 id bumpHeap :=
  ⟨rfl, by decide, by decide, by decide⟩

/-- The calls of a run one after the other, each of them allowed. -/
def MallocRun.runAll (sbrk : σ → ℕ → ℕ × σ) (base fuel : ℕ) :
    List MallocCall → MallocRun σ → Option (MallocRun σ)
  | [], st => some st
  | c :: calls, st =>
    if c.Allowed st then (c.run sbrk base fuel st).bind (runAll sbrk base fuel calls) else none

theorem MallocReach.runAll {start st st' : MallocRun σ} {calls : List MallocCall}
    (h : MallocReach sbrk base (fun _ _ => True) start st)
    (hrun : MallocRun.runAll sbrk base fuel calls st = some st') :
    MallocReach sbrk base (fun _ _ => True) start st' := by
  induction calls generalizing st with
  | nil => exact Option.some.inj hrun ▸ h
  | cons c calls ih =>
    rw [MallocRun.runAll] at hrun
    by_cases hallowed : c.Allowed st
    · rw [if_pos hallowed] at hrun
      obtain ⟨st₁, hc, hrest⟩ := Option.bind_eq_some_iff.mp hrun
      exact ih (h.call hallowed trivial hc) hrest
    · rw [if_neg hallowed] at hrun
      exact absurd hrun (by simp)

/-- The first call of a run is clean. -/
theorem bumpHeap_clean : MallocClean bumpSbrk 0x1000 bumpHeap 100 := by
  have hrep : Rep 0x1000 0x2000 0x2000 (startList 0x1000 bumpHeap) [] [] :=
    Rep.startList rfl (by decide) (by decide) (by decide)
  have hbase : ∀ x, OnList (startList 0x1000 bumpHeap) x → x = 0x1000 := fun x hx =>
    List.mem_singleton.mp (hrep.onList.mp hx)
  refine ⟨fun x ⟨k, hk, hfit, _⟩ => ?_, fun _ _ => ⟨fun header hheader _ => ?_, fun _ => by decide⟩⟩
  · have hx := hbase x ⟨k + 1, hk⟩
    rw [hx, hrep.baseSize] at hfit
    exact absurd hfit (by decide)
  · rw [hbase header hheader]
    exact ⟨by decide, by decide⟩

/-! ### Runs whose calls are looked up to be clean

A list that comes round after `k` links has no headers but the `k` first ones. So whether a
call is clean can be read off them, one after the other, and a run can be checked by running
it. -/

/-- The header `j` links behind `_next_free`. -/
def Allocator.header (st : Allocator σ) (j : ℕ) : ℕ := (next st.mem)^[j] st.nextFree

theorem onList_lt {st : Allocator σ} {k x : ℕ} (hpos : 0 < k)
    (hround : st.header k = st.nextFree) (hx : OnList st x) : ∃ j < k, st.header j = x := by
  obtain ⟨i, rfl⟩ := hx
  have hperiodic : Function.IsPeriodicPt (next st.mem) k st.nextFree := hround
  exact ⟨i % k, Nat.mod_lt i hpos, hperiodic.iterate_mod_apply i⟩

instance (mem : Mem) (mblock blockSize header : ℕ) :
    Decidable (NoMerge mem mblock blockSize header) :=
  inferInstanceAs (Decidable (_ ∧ _))

/-- A block of `n` bytes behind no header of the list would be merged. -/
def Allocator.NeverMerges (st : Allocator σ) (k mblock n : ℕ) : Prop :=
  ∀ j < k, freeStops st.mem mblock (st.header j) → NoMerge st.mem mblock n (st.header j)

instance (st : Allocator σ) (k mblock n : ℕ) : Decidable (st.NeverMerges k mblock n) :=
  inferInstanceAs (Decidable (∀ j < k, _ → _))

/-- Of every header of the list with `n` bytes or more, what is left has room for a header. -/
def Allocator.SplitsWell (st : Allocator σ) (k n : ℕ) : Prop :=
  ∀ j < k, n ≤ size st.mem (st.header j) →
    size st.mem (st.header j) = n ∨ n + headerSize ≤ size st.mem (st.header j)

instance (st : Allocator σ) (k n : ℕ) : Decidable (st.SplitsWell k n) :=
  inferInstanceAs (Decidable (∀ j < k, _ → _))

/-- The blocks that `morecore` gets would not be merged. -/
def Allocator.GrowsWell (sbrk : σ → ℕ → ℕ × σ) (base : ℕ) (st : Allocator σ) (k n : ℕ) : Prop :=
  st.NeverMerges k (sbrk st.system (morecoreRequest n)).1 (morecoreRequest n) ∧
    addHeaders (sbrk (sbrk st.system (morecoreRequest n)).2 (morecoreRequest n)).1
      (morecoreRequest n) ≠ base

instance (sbrk : σ → ℕ → ℕ × σ) (base : ℕ) (st : Allocator σ) (k n : ℕ) :
    Decidable (st.GrowsWell sbrk base k n) :=
  inferInstanceAs (Decidable (_ ∧ _))

/-- The call is clean by the look of the `k` headers of the list. -/
def MallocCall.LooksClean (sbrk : σ → ℕ → ℕ × σ) (base k : ℕ) (st : MallocRun σ) :
    MallocCall → Prop
  | .malloc nbytes =>
    (startList base st.alloc).header k = (startList base st.alloc).nextFree ∧
      (startList base st.alloc).SplitsWell k (nbytes + headerSize) ∧
      (startList base st.alloc).GrowsWell sbrk base k (nbytes + headerSize)
  | .free block =>
    st.alloc.header k = st.alloc.nextFree ∧
      st.alloc.NeverMerges k (block - headerSize) (size st.alloc.mem (block - headerSize))
  | .store _ _ => True

instance (sbrk : σ → ℕ → ℕ × σ) (base k : ℕ) (st : MallocRun σ) :
    DecidablePred (MallocCall.LooksClean sbrk base k st)
  | .malloc _ => inferInstanceAs (Decidable (_ ∧ _))
  | .free _ => inferInstanceAs (Decidable (_ ∧ _))
  | .store _ _ => inferInstanceAs (Decidable True)

theorem Allocator.NeverMerges.onList {st : Allocator σ} {k mblock n : ℕ} (hpos : 0 < k)
    (hround : st.header k = st.nextFree) (h : st.NeverMerges k mblock n) :
    ∀ header, OnList st header → freeStops st.mem mblock header →
      NoMerge st.mem mblock n header := by
  intro header hheader hstops
  obtain ⟨j, hj, rfl⟩ := onList_lt hpos hround hheader
  exact h j hj hstops

/-- What looks clean is clean. -/
theorem MallocCall.LooksClean.clean {k : ℕ} {st : MallocRun σ} {c : MallocCall} (hpos : 0 < k)
    (h : c.LooksClean sbrk base k st) : c.Clean sbrk base st := by
  cases c with
  | malloc nbytes =>
    obtain ⟨hround, hsplits, hmerges, hsecond⟩ := h
    refine ⟨fun x ⟨i, hx, hfit, _⟩ => ?_, fun _ _ => ⟨hmerges.onList hpos hround, fun _ => hsecond⟩⟩
    obtain ⟨j, hj, rfl⟩ := onList_lt hpos hround ⟨i + 1, hx⟩
    exact hsplits j hj hfit
  | free block =>
    obtain ⟨hround, hmerges⟩ := h
    exact hmerges.onList hpos hround
  | store addr v => trivial

/-- The calls of a run one after the other, each of them allowed and with `P`. -/
def MallocRun.runMeeting (sbrk : σ → ℕ → ℕ × σ) (base fuel : ℕ)
    (P : MallocRun σ → MallocCall → Prop) [∀ st, DecidablePred (P st)] :
    List MallocCall → MallocRun σ → Option (MallocRun σ)
  | [], st => some st
  | c :: calls, st =>
    if c.Allowed st ∧ P st c then
      (c.run sbrk base fuel st).bind (runMeeting sbrk base fuel P calls)
    else none

theorem MallocReach.runMeeting {P Q : MallocRun σ → MallocCall → Prop}
    [∀ st, DecidablePred (P st)] (hP : ∀ st c, P st c → Q st c) {start st st' : MallocRun σ}
    {calls : List MallocCall} (h : MallocReach sbrk base Q start st)
    (hrun : MallocRun.runMeeting sbrk base fuel P calls st = some st') :
    MallocReach sbrk base Q start st' := by
  induction calls generalizing st with
  | nil => exact Option.some.inj hrun ▸ h
  | cons c calls ih =>
    rw [MallocRun.runMeeting] at hrun
    by_cases hmeets : c.Allowed st ∧ P st c
    · rw [if_pos hmeets] at hrun
      obtain ⟨st₁, hc, hrest⟩ := Option.bind_eq_some_iff.mp hrun
      exact ih (h.call hmeets.1 (hP st c hmeets.2) hc) hrest
    · rw [if_neg hmeets] at hrun
      exact absurd hrun (by simp)

/-- The calls look clean on lists of one, three or four headers. -/
def MallocCall.FewClean (sbrk : σ → ℕ → ℕ × σ) (base : ℕ) (st : MallocRun σ) (c : MallocCall) :
    Prop :=
  ∃ k ∈ [1, 3, 4], c.LooksClean sbrk base k st

instance (sbrk : σ → ℕ → ℕ × σ) (base : ℕ) (st : MallocRun σ) :
    DecidablePred (MallocCall.FewClean sbrk base st) := fun _ =>
  inferInstanceAs (Decidable (∃ k ∈ [1, 3, 4], _))

theorem MallocCall.FewClean.clean (st : MallocRun σ) (c : MallocCall)
    (h : c.FewClean sbrk base st) : c.Clean sbrk base st := by
  obtain ⟨k, hk, hclean⟩ := h
  refine hclean.clean ?_
  simp only [List.mem_cons, List.not_mem_nil, or_false] at hk
  omega

/-- Three allocations, the second of which is freed. -/
def threeCalls : List MallocCall := [.malloc 100, .malloc 104, .malloc 200, .free 9004]

/-- A run of three allocations and a release: two allocations stay, and three blocks are free. -/
theorem bumpHeap_safe : ∃ st, MallocReach bumpSbrk 0x1000
    (fun st c => c.Clean bumpSbrk 0x1000 st) ⟨bumpHeap, []⟩ st ∧
      st.live = [(8796, 200), (9116, 100)] ∧ HeapSafe 0x2000 st.alloc.system st ∧
      CallsReturn bumpSbrk 0x1000 st := by
  have hrun : ((MallocRun.runMeeting bumpSbrk 0x1000 20 (MallocCall.FewClean bumpSbrk 0x1000)
      threeCalls ⟨bumpHeap, []⟩).any
      fun st => decide (st.live = [(8796, 200), (9116, 100)])) = true := by decide +kernel
  obtain ⟨st, hst, hlive⟩ := (Option.any_eq_true _ _).mp hrun
  have hreach : MallocReach bumpSbrk 0x1000 (fun st c => c.Clean bumpSbrk 0x1000 st)
      ⟨bumpHeap, []⟩ st := MallocReach.start.runMeeting MallocCall.FewClean.clean hst
  exact ⟨st, hreach, of_decide_eq_true hlive,
    heap_safe bumpSbrk_contiguous bumpHeap_empty hreach⟩

/-- With three allocations held, the second is freed: the 2048 bytes of the heap are those of
three free blocks and of two live ones. -/
theorem bumpHeap_conserves : ∃ st st', MallocReach bumpSbrk 0x1000
    (fun st c => c.Clean bumpSbrk 0x1000 st) ⟨bumpHeap, []⟩ st ∧
      (MallocCall.free 9004).run bumpSbrk 0x1000 20 st = some st' ∧
      st'.live = [(8796, 200), (9116, 100)] ∧ st'.alloc.system = 0x2800 ∧
      ∃ rest, ListConserves 0x1000 0x2000 st'.alloc.system st' rest := by
  have hrun : ((MallocRun.runMeeting bumpSbrk 0x1000 20 (MallocCall.FewClean bumpSbrk 0x1000)
      [.malloc 100, .malloc 104, .malloc 200] ⟨bumpHeap, []⟩).any fun st =>
        decide ((MallocCall.free 9004).Allowed st ∧
          (MallocCall.free 9004).FewClean bumpSbrk 0x1000 st) &&
        ((MallocCall.free 9004).run bumpSbrk 0x1000 20 st).any fun st' =>
          decide (st'.live = [(8796, 200), (9116, 100)] ∧ st'.alloc.system = 0x2800)) = true := by
    decide +kernel
  obtain ⟨st, hst, hboth⟩ := (Option.any_eq_true _ _).mp hrun
  obtain ⟨hlast, hfreed⟩ := Bool.and_eq_true_iff.mp hboth
  obtain ⟨hallowed, hclean⟩ := of_decide_eq_true hlast
  obtain ⟨st', hst', hfacts⟩ := (Option.any_eq_true _ _).mp hfreed
  obtain ⟨hlive, hsystem⟩ := of_decide_eq_true hfacts
  have hreach : MallocReach bumpSbrk 0x1000 (fun st c => c.Clean bumpSbrk 0x1000 st)
      ⟨bumpHeap, []⟩ st := MallocReach.start.runMeeting MallocCall.FewClean.clean hst
  exact ⟨st, st', hreach, hst', hlive, hsystem, free_list_conserves bumpSbrk_contiguous
    bumpHeap_empty hreach hallowed (hclean.clean st _) hst'⟩

/-- Five calls after which a free block has swallowed part of a live one: the size of the
free block at `0x2314` is 16, and `0x2314 + 8 * 16` is the block that is freed next. -/
theorem swallowed_block : ∃ st, MallocReach bumpSbrk 0x1000 (fun _ _ => True) ⟨bumpHeap, []⟩ st ∧
    ¬ HeapSafe 0x2000 st.alloc.system st := by
  have hrun : ((MallocRun.runAll bumpSbrk 0x1000 20
      [.malloc 100, .malloc 104, .malloc 8, .free 8988, .free 9116] ⟨bumpHeap, []⟩).any
      fun st => decide ((9004, 104) ∈ st.live ∧ st.alloc.nextFree = 8980 ∧
        size st.alloc.mem 8980 = 124)) = true := by decide +kernel
  obtain ⟨st, hst, hfacts⟩ := (Option.any_eq_true _ _).mp hrun
  obtain ⟨hlive, hcurrent, hsize⟩ := of_decide_eq_true hfacts
  refine ⟨st, MallocReach.start.runAll hst, fun hsafe => ?_⟩
  have hdisjoint := (hsafe.freeBlocks (9004, 104) hlive 8980 ⟨0, hcurrent⟩).2
  rw [hsize] at hdisjoint
  exact Set.disjoint_left.mp hdisjoint (show 9004 ∈ Set.Ico 9004 9108 by decide)
    (show 9004 ∈ Set.Ico 8980 9104 by decide)

/-- Two calls after which a free block has a size of more than two gigabytes: the split
leaves three bytes, and the header of the new block lies over the size of the old one. -/
theorem split_header : ∃ st, MallocReach bumpSbrk 0x1000 (fun _ _ => True) ⟨bumpHeap, []⟩ st ∧
    ¬ ∃ rest, ListConserves 0x1000 0x2000 st.alloc.system st rest := by
  have hrun : ((MallocRun.runAll bumpSbrk 0x1000 20 [.malloc 100, .malloc 905]
      ⟨bumpHeap, []⟩).any fun st => decide (st.alloc.system = 0x2800 ∧
        st.alloc.nextFree = 0x1000 ∧ next st.alloc.mem 0x1000 = 0x2000 ∧
        size st.alloc.mem 0x2000 = 2432696323)) = true := by decide +kernel
  obtain ⟨st, hst, hfacts⟩ := (Option.any_eq_true _ _).mp hrun
  obtain ⟨htop, hcurrent, hnext, hsize⟩ := of_decide_eq_true hfacts
  refine ⟨st, MallocReach.start.runAll hst, fun ⟨rest, hlist⟩ => ?_⟩
  have hcircular := hlist.circular
  rw [hcurrent] at hcircular
  cases rest with
  | nil => exact absurd (hnext.symm.trans hcircular) (by decide)
  | cons header rest =>
    have hheader : header = 0x2000 := hcircular.1.symm.trans hnext
    have hconserved := hlist.conserved
    rw [htop, hheader, List.map_cons, List.map_cons, List.sum_cons, List.sum_cons, hsize]
      at hconserved
    omega

end MissyKernel
