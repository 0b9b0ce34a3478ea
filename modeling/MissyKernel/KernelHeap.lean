import MissyKernel.Pagemngr

/-!
# The kernel's break (`memory.c`)

`brk` moves the break and maps one frame for each page it passes, `sbrk` moves it by
an increment. Both come down to `allocateNewBrk`, whose rollback this model keeps as
it is: the C loop around it returns in its first round.

A call is `none` when a store or load of the page manager faults. `Heap.Ok` is what
every call keeps; it is all that can be said after the calls that go wrong.

The first call of `brk` takes the break for unset when it is zero; the heap's base is given by
`kernel_main`. `brk_cases` and `sbrk_cases` say how a call ends, and `Heap.Ok.run` that whatever
it reports the tables can be walked afterwards. What a call should have done, and when it does,
is the subject of `HeapBreak` and `HeapFailure`.
-/

namespace MissyKernel

/-- `EINVAL` of `errno.h` -/
def einval : ℕ := 1

/-- `PAGEMNGR_PAGE_ALIGN_DOWN` -/
def pagemngrPageAlignDown (x : ℕ) : ℕ := x &&& (0xffffffff ^^^ 0xfff)

/-- `PAGEMNGR_PAGE_ALIGN_UP`: the next page boundary, also of a page boundary. -/
def pagemngrPageAlignUp (x : ℕ) : ℕ := ((x &&& (0xffffffff ^^^ 0xfff)) + 4096) % 2 ^ 32

/-- Set the global `errno`. -/
def Paging.setErrno (st : Paging) (e : ℕ) : Paging :=
  st.setBalloc { st.balloc with errno := e }

/-- `allocate_new_brk`, with `i` blocks allocated and `rest` to go. -/
def allocateNewBrk : ℕ → ℕ → ℕ → Paging → Option (ℤ × Paging)
  | 0, _, _, st => some (0, st)
  | rest + 1, i, frameAddr, st => do
    let (block, balloc) := ballocAllocateBlock st.balloc
    let st := st.setBalloc balloc
    if block = 0 ∧ i > 0 then
      let (physical, st) ← pagemngrUnmapBlock st frameAddr
      let st :=
        if physical ≠ 0 then st.setBalloc (ballocDeallocateBlock st.balloc physical) else st
      some (-1, st.setErrno enomem)
    else
      let (_, st) ← pagemngrMapBlock st block frameAddr
      allocateNewBrk rest (i + 1) ((frameAddr + 4096) % 2 ^ 32) st

/-- The statics of `memory.c`, over the page manager. -/
structure Heap : Type where
  /-- physical memory, the tables and the frame allocator -/
  paging : Paging
  /-- `_brk` -/
  brk : ℕ
  /-- `_heap_base` -/
  heapBase : ℕ

/-- Set the global `errno`. -/
def Heap.setErrno (st : Heap) (e : ℕ) : Heap := { st with paging := st.paging.setErrno e }

/-- `brk` -/
def brk (st : Heap) (addr : ℕ) : Option (ℤ × Heap) :=
  if st.heapBase = 0 then some (-1, st.setErrno einval)
  else if addr < st.heapBase then some (-1, st.setErrno enomem)
  else
    let pageAlignedTop := pagemngrPageAlignUp addr
    if st.brk = 0 then do
      let blockCount := (pageAlignedTop + 2 ^ 32 - st.heapBase) % 2 ^ 32 / 4096
      let (result, paging) ← allocateNewBrk blockCount 0 st.heapBase st.paging
      if result = -1 then some (-1, { st with paging := paging })
      else some (0, { st with paging := paging, brk := addr })
    else if pagemngrPageAlignDown addr = pagemngrPageAlignDown st.brk then
      some (0, { st with brk := addr })
    else do
      let newBlockCount :=
        ((pageAlignedTop + 2 ^ 32 - pagemngrPageAlignDown st.brk) % 2 ^ 32 / 4096 + 2 ^ 32 - 1) %
          2 ^ 32
      let (result, paging) ←
        allocateNewBrk newBlockCount 0 (pagemngrPageAlignUp st.brk) st.paging
      if result = -1 then some (-1, { st with paging := paging })
      else some (0, { st with paging := paging, brk := addr })

/-- The address that `sbrk` asks `brk` for. -/
def sbrkTarget (st : Heap) (increment : ℤ) : ℕ := ((st.brk + increment) % 2 ^ 32).toNat

/-- `sbrk`: the old break, or `0xffffffff` for `(void *)-1`. -/
def sbrk (st : Heap) (increment : ℤ) : Option (ℕ × Heap) :=
  if increment = 0 then some (st.brk, st)
  else do
    let (result, st') ← brk st (sbrkTarget st increment)
    if result ≠ 0 then some (0xffffffff, st'.setErrno enomem) else some (st.brk, st')

/-! ## Page arithmetic -/

theorem pagemngrPageAlignDown_eq {x : ℕ} (hx : x < 2 ^ 32) :
    pagemngrPageAlignDown x = x / 4096 * 4096 := and_pageMask hx

theorem pagemngrPageAlignUp_eq {x : ℕ} (hx : x < 2 ^ 32) :
    pagemngrPageAlignUp x = (x / 4096 * 4096 + 4096) % 2 ^ 32 := by
  rw [pagemngrPageAlignUp, and_pageMask hx]

/-- The first page a higher break needs. -/
def Heap.firstPage (st : Heap) : ℕ := if st.brk = 0 then st.heapBase / 4096 else st.brk / 4096 + 1

/-- The number of pages the break at `addr` needs more than the present one. -/
def Heap.pageCount (st : Heap) (addr : ℕ) : ℕ := addr / 4096 + 1 - st.firstPage

theorem brk_of_below {st : Heap} {addr : ℕ} (h0 : st.heapBase ≠ 0) (haddr : addr < st.heapBase) :
    brk st addr = some (-1, st.setErrno enomem) := by
  rw [brk, if_neg h0, if_pos haddr]

theorem brk_of_same_page {st : Heap} {addr : ℕ} (hb : 0 < st.heapBase) (hle : st.heapBase ≤ addr)
    (haddr : addr < 2 ^ 32) (hbrk : st.brk ≠ 0) (hlt : st.brk < 2 ^ 32)
    (hpage : addr / 4096 = st.brk / 4096) : brk st addr = some (0, { st with brk := addr }) := by
  rw [brk, if_neg (by omega), if_neg (by omega), if_neg hbrk, if_pos]
  rw [pagemngrPageAlignDown_eq haddr, pagemngrPageAlignDown_eq hlt, hpage]

/-- Raising the break, also for the first time: the pages between are allocated. -/
theorem brk_of_growth {st : Heap} {addr : ℕ} (hb : 0 < st.heapBase)
    (halign : st.heapBase % 4096 = 0) (hle : st.heapBase ≤ addr) (haddr : addr < 2 ^ 32)
    (hlt : st.brk < 2 ^ 32) (hge : st.brk = 0 ∨ st.heapBase ≤ st.brk)
    (hpos : 0 < st.pageCount addr) :
    brk st addr =
      (allocateNewBrk (st.pageCount addr) 0 (st.firstPage * 4096) st.paging).bind fun r =>
        if r.1 = -1 then some (-1, { st with paging := r.2 })
        else some (0, { st with paging := r.2, brk := addr }) := by
  rw [brk, if_neg (by omega), if_neg (by omega)]
  rw [Heap.pageCount, Heap.firstPage] at hpos ⊢
  by_cases hbrk : st.brk = 0
  · simp only [if_pos hbrk] at hpos ⊢
    have hcount : (pagemngrPageAlignUp addr + 2 ^ 32 - st.heapBase) % 2 ^ 32 / 4096 =
        addr / 4096 + 1 - st.heapBase / 4096 := by
      rw [pagemngrPageAlignUp_eq haddr]
      omega
    rw [hcount, show st.heapBase / 4096 * 4096 = st.heapBase by omega]
    rfl
  · simp only [if_neg hbrk] at hpos ⊢
    have hcount : ((pagemngrPageAlignUp addr + 2 ^ 32 - pagemngrPageAlignDown st.brk) % 2 ^ 32 /
        4096 + 2 ^ 32 - 1) % 2 ^ 32 = addr / 4096 + 1 - (st.brk / 4096 + 1) := by
      rw [pagemngrPageAlignUp_eq haddr, pagemngrPageAlignDown_eq hlt]
      omega
    have hfirst : pagemngrPageAlignUp st.brk = (st.brk / 4096 + 1) * 4096 := by
      rw [pagemngrPageAlignUp_eq hlt]
      omega
    rw [if_neg, hcount, hfirst]
    · rfl
    · rw [pagemngrPageAlignDown_eq haddr, pagemngrPageAlignDown_eq hlt]
      omega

/-! ## How a call ends -/

/-- How `brk` ends: the break is at `addr`, in the heap, or where it was. -/
theorem brk_cases {st st' : Heap} {addr : ℕ} {r : ℤ} (h : brk st addr = some (r, st')) :
    st'.heapBase = st.heapBase ∧
      ((r = 0 ∧ st'.brk = addr ∧ st.heapBase ≤ addr) ∨ (r = -1 ∧ st'.brk = st.brk)) := by
  have hloop : ∀ {count v : ℕ}, st.heapBase ≤ addr →
      ((allocateNewBrk count 0 v st.paging).bind fun r =>
        if r.1 = -1 then some ((-1 : ℤ), { st with paging := r.2 })
        else some (0, { st with paging := r.2, brk := addr })) = some (r, st') →
      st'.heapBase = st.heapBase ∧
        ((r = 0 ∧ st'.brk = addr ∧ st.heapBase ≤ addr) ∨ (r = -1 ∧ st'.brk = st.brk)) := by
    intro count v hle hcall
    obtain ⟨⟨result, paging⟩, -, hcall⟩ := Option.bind_eq_some_iff.mp hcall
    split at hcall
    · cases hcall
      exact ⟨rfl, .inr ⟨rfl, rfl⟩⟩
    · cases hcall
      exact ⟨rfl, .inl ⟨rfl, rfl, hle⟩⟩
  rw [brk] at h
  by_cases h0 : st.heapBase = 0
  · rw [if_pos h0] at h
    cases h
    exact ⟨rfl, .inr ⟨rfl, rfl⟩⟩
  by_cases hle : addr < st.heapBase
  · rw [if_neg h0, if_pos hle] at h
    cases h
    exact ⟨rfl, .inr ⟨rfl, rfl⟩⟩
  rw [if_neg h0, if_neg hle] at h
  by_cases hbrk : st.brk = 0
  · simp only [if_pos hbrk] at h
    exact hloop (Nat.le_of_not_lt hle) h
  by_cases hpage : pagemngrPageAlignDown addr = pagemngrPageAlignDown st.brk
  · simp only [if_neg hbrk, if_pos hpage] at h
    cases h
    exact ⟨rfl, .inl ⟨rfl, rfl, Nat.le_of_not_lt hle⟩⟩
  · simp only [if_neg hbrk, if_neg hpage] at h
    exact hloop (Nat.le_of_not_lt hle) h

/-- How `sbrk` ends: it returns the old break, which moves by the increment and stays in the
heap, or it fails and the break stays. -/
theorem sbrk_cases {st st' : Heap} {increment : ℤ} {r : ℕ}
    (h : sbrk st increment = some (r, st')) :
    st'.heapBase = st.heapBase ∧
      ((r = st.brk ∧ (st'.brk = st.brk ∧ increment = 0 ∨
          st'.brk = sbrkTarget st increment ∧ st.heapBase ≤ st'.brk)) ∨
        (r = 0xffffffff ∧ st'.brk = st.brk)) := by
  rw [sbrk] at h
  by_cases h0 : increment = 0
  · rw [if_pos h0] at h
    cases h
    exact ⟨rfl, .inl ⟨rfl, .inl ⟨rfl, h0⟩⟩⟩
  · rw [if_neg h0] at h
    obtain ⟨⟨result, st₁⟩, hbrk, hcall⟩ := Option.bind_eq_some_iff.mp h
    obtain ⟨hbase, ⟨rfl, htarget, hle⟩ | ⟨rfl, hsame⟩⟩ := brk_cases hbrk
    · simp only [ne_eq, not_true_eq_false, if_false] at hcall
      cases hcall
      exact ⟨hbase, .inl ⟨rfl, .inr ⟨htarget, htarget ▸ hle⟩⟩⟩
    · simp only [ne_eq, show (-1 : ℤ) ≠ 0 by decide, not_false_eq_true, if_true] at hcall
      cases hcall
      exact ⟨hbase, .inr ⟨rfl, hsame⟩⟩

/-! ## One round of the loop -/

section Round

variable {st : Paging} {rest i v b : ℕ}

theorem allocateNewBrk_of_frame (h : st.Ok) (hb : st.balloc.IsNextFree b) :
    allocateNewBrk (rest + 1) i v st =
      (pagemngrMapBlock (st.setBalloc (st.balloc.allocate b)) (b * 4096) v).bind fun r =>
        allocateNewBrk rest (i + 1) ((v + 4096) % 2 ^ 32) r.2 := by
  obtain ⟨hpos, hlt, -, -⟩ := h.nextFree hb
  have hcall : ballocAllocateBlock st.balloc = (b * 4096, st.balloc.allocate b) := by
    rw [Balloc.allocateBlock_of_nextFree hb, Nat.mod_eq_of_lt (by omega)]
  rw [allocateNewBrk]
  simp only [hcall]
  rw [if_neg (by omega)]
  rfl

/-- Without a frame, the first round goes on with frame 0. -/
theorem allocateNewBrk_of_none_first (rest v : ℕ) (hnone : ∀ b, ¬ st.balloc.IsNextFree b) :
    ∃ e, allocateNewBrk (rest + 1) 0 v st =
      (pagemngrMapBlock (st.setErrno e) 0 v).bind fun r =>
        allocateNewBrk rest 1 ((v + 4096) % 2 ^ 32) r.2 := by
  obtain ⟨e, hcall⟩ := Balloc.allocateBlock_of_none hnone
  refine ⟨e, ?_⟩
  rw [allocateNewBrk]
  simp only [hcall]
  rw [if_neg (by omega)]
  rfl

/-- The rollback: the page that was to come is unmapped, and the call fails. -/
theorem allocateNewBrk_of_none (rest v : ℕ) (hnone : ∀ b, ¬ st.balloc.IsNextFree b)
    (hi : 0 < i) :
    ∃ e, allocateNewBrk (rest + 1) i v st =
      (pagemngrUnmapBlock (st.setErrno e) v).bind fun r =>
        some (-1, Paging.setErrno (if r.1 ≠ 0 then
          r.2.setBalloc (ballocDeallocateBlock r.2.balloc r.1) else r.2) enomem) := by
  obtain ⟨e, hcall⟩ := Balloc.allocateBlock_of_none hnone
  refine ⟨e, ?_⟩
  rw [allocateNewBrk]
  simp only [hcall]
  rw [if_pos ⟨trivial, hi⟩]
  rfl

namespace Paging.Ok

variable (h : st.Ok)
include h

theorem setErrno (e : ℕ) : (st.setErrno e).Ok := h.setBalloc rfl h.marked h.tableMarked

theorem setAllocate (b : ℕ) : (st.setBalloc (st.balloc.allocate b)).Ok := by
  have hused : ∀ c, st.balloc.used c = true → (st.balloc.allocate b).used c = true :=
    fun c hc => by rw [Balloc.used_allocate, hc, Bool.true_or]
  exact h.setBalloc rfl (hused _ h.marked) fun d hd hne h0 => hused _ (h.tableMarked d hd hne h0)

/-- The frame that was just taken may be mapped. -/
theorem mappable (hb : st.balloc.IsNextFree b) :
    (st.setBalloc (st.balloc.allocate b)).Mappable (b * 4096) := by
  obtain ⟨hpos, hlt, hcr3, htables⟩ := h.nextFree hb
  refine ⟨by omega, by omega, hcr3, fun _ => ?_, fun _ d hd hne => htables d hd hne⟩
  change (st.balloc.allocate b).used (b * 4096 / 4096) = true
  rw [Nat.mul_div_cancel _ (by decide), Balloc.used_allocate, decide_eq_true rfl, Bool.or_true]

/-- Giving back an address inside frame 0 touches no table. -/
theorem setDeallocate {q : ℕ} (hq : q < 4096) :
    (st.setBalloc (ballocDeallocateBlock st.balloc q)).Ok := by
  have hused : ∀ p, p % 4096 = 0 → p ≠ 0 → st.balloc.used (p / 4096) = true →
      (ballocDeallocateBlock st.balloc q).used (p / 4096) = true := by
    intro p hp hp0 hm
    rw [Balloc.used_deallocateBlock, hm]
    simp [show p / 4096 ≠ q / 4096 by omega]
  exact h.setBalloc (st.balloc.deallocateBlock_totalBlocks q)
    (hused _ h.aligned h.notNull h.marked) fun d hd hne h0 =>
      hused _ (st.table_aligned d) h0 (h.tableMarked d hd hne h0)

end Paging.Ok

/-- However the loop ends, the walk still works. -/
theorem allocateNewBrk_ok : ∀ (rest i v : ℕ) (st : Paging), st.Ok → v < 2 ^ 32 →
    ∀ (r : ℤ) (st' : Paging), allocateNewBrk rest i v st = some (r, st') → st'.Ok
  | 0, _, _, st, h, _, r, st', hcall => by
    cases hcall
    exact h
  | rest + 1, i, v, st, h, hv, r, st', hcall => by
    have hnext : (v + 4096) % 2 ^ 32 < 2 ^ 32 := Nat.mod_lt _ (by decide)
    by_cases hfree : ∃ b, st.balloc.IsNextFree b
    · obtain ⟨b, hb⟩ := hfree
      obtain ⟨r₁, st₁, hmap, hok⟩ := (h.setAllocate b).mapBlock hv (h.mappable hb)
      rw [allocateNewBrk_of_frame h hb, hmap, Option.bind_some] at hcall
      exact allocateNewBrk_ok rest (i + 1) _ st₁ hok hnext r st' hcall
    have hnone := not_exists.mp hfree
    rcases Nat.eq_zero_or_pos i with rfl | hi
    · obtain ⟨e, hround⟩ := allocateNewBrk_of_none_first rest v hnone
      obtain ⟨r₁, st₁, hmap, hok⟩ := (h.setErrno e).mapBlock hv (h.setErrno e).mappable_null
      rw [hround, hmap, Option.bind_some] at hcall
      exact allocateNewBrk_ok rest 1 _ st₁ hok hnext r st' hcall
    · obtain ⟨e, hround⟩ := allocateNewBrk_of_none rest v hnone hi
      rw [hround] at hcall
      obtain ⟨⟨q, st₁⟩, hunmap, hcall⟩ := Option.bind_eq_some_iff.mp hcall
      have hok := (h.setErrno e).unmapBlock hv hunmap
      have hq := Paging.unmapBlock_lt hunmap
      cases hcall
      refine Paging.Ok.setErrno ?_ _
      by_cases hq0 : q = 0
      · rw [if_neg (not_not_intro hq0)]
        exact hok
      · rw [if_pos hq0]
        exact hok.setDeallocate hq

end Round

/-! ## Runs -/

/-- What every call keeps. -/
structure Heap.Ok (st : Heap) : Prop where
  /-- the walk works -/
  paging : st.paging.Ok
  /-- the heap starts at a page -/
  aligned : st.heapBase % 4096 = 0
  /-- that is not page 0 -/
  positive : 0 < st.heapBase
  /-- the break is unset or not below the heap -/
  above : st.brk = 0 ∨ st.heapBase ≤ st.brk
  /-- it is an address -/
  below : st.brk < 2 ^ 32

/-- A call of the heap. -/
inductive HeapCall : Type where
  /-- `brk(addr)` -/
  | brk (addr : ℕ)
  /-- `sbrk(increment)` -/
  | sbrk (increment : ℤ)

/-- The address a call asks for. -/
def HeapCall.target (st : Heap) : HeapCall → ℕ
  | .brk addr => addr
  | .sbrk increment => sbrkTarget st increment

/-- The call, with what it reports: `true` is success. -/
def HeapCall.run (st : Heap) : HeapCall → Option (Bool × Heap)
  | .brk addr => (MissyKernel.brk st addr).map fun r => (decide (r.1 = 0), r.2)
  | .sbrk increment => (MissyKernel.sbrk st increment).map fun r =>
      (decide (r.1 ≠ 0xffffffff), r.2)

/-- The states that calls from `start` reach, each of which meets `P` in the state it is
made in. -/
inductive HeapReach (P : Heap → HeapCall → Prop) (start : Heap) : Heap → Prop where
  /-- no call so far -/
  | start : HeapReach P start start
  /-- one call more -/
  | call {st st' : Heap} {c : HeapCall} {ok : Bool} (h : HeapReach P start st) (hc : P st c)
    (hrun : c.run st = some (ok, st')) : HeapReach P start st'

theorem sbrkTarget_lt (st : Heap) (increment : ℤ) : sbrkTarget st increment < 2 ^ 32 := by
  have h0 := Int.emod_nonneg (st.brk + increment) (show (2 ^ 32 : ℤ) ≠ 0 by decide)
  have h1 := Int.emod_lt_of_pos (st.brk + increment) (show (0 : ℤ) < 2 ^ 32 by decide)
  rw [sbrkTarget]
  omega

theorem Heap.Ok.setErrno {st : Heap} (h : st.Ok) (e : ℕ) : (st.setErrno e).Ok :=
  ⟨h.paging.setErrno e, h.aligned, h.positive, h.above, h.below⟩

/-- What the two branches that allocate do with the result. -/
theorem Heap.Ok.afterLoop {st st' : Heap} (h : st.Ok) {addr count v : ℕ} (haddr : addr < 2 ^ 32)
    (hle : st.heapBase ≤ addr) (hv : v < 2 ^ 32) {r : ℤ}
    (hcall : ((allocateNewBrk count 0 v st.paging).bind fun r =>
      if r.1 = -1 then some ((-1 : ℤ), { st with paging := r.2 })
      else some (0, { st with paging := r.2, brk := addr })) = some (r, st')) : st'.Ok := by
  obtain ⟨⟨r₁, paging⟩, hloop, hcall⟩ := Option.bind_eq_some_iff.mp hcall
  have hok := allocateNewBrk_ok count 0 v st.paging h.paging hv r₁ paging hloop
  split at hcall
  · cases hcall
    exact ⟨hok, h.aligned, h.positive, h.above, h.below⟩
  · cases hcall
    exact ⟨hok, h.aligned, h.positive, .inr hle, haddr⟩

theorem Heap.Ok.brk {st st' : Heap} (h : st.Ok) {addr : ℕ} (haddr : addr < 2 ^ 32) {r : ℤ}
    (hcall : MissyKernel.brk st addr = some (r, st')) : st'.Ok := by
  rw [MissyKernel.brk] at hcall
  by_cases h0 : st.heapBase = 0
  · rw [if_pos h0] at hcall
    cases hcall
    exact h.setErrno einval
  by_cases hle : addr < st.heapBase
  · rw [if_neg h0, if_pos hle] at hcall
    cases hcall
    exact h.setErrno enomem
  rw [if_neg h0, if_neg hle] at hcall
  by_cases hbrk : st.brk = 0
  · simp only [if_pos hbrk] at hcall
    exact h.afterLoop haddr (by omega) (by omega) hcall
  by_cases hpage : pagemngrPageAlignDown addr = pagemngrPageAlignDown st.brk
  · simp only [if_neg hbrk, if_pos hpage] at hcall
    cases hcall
    exact ⟨h.paging, h.aligned, h.positive, .inr (Nat.le_of_not_lt hle), haddr⟩
  · simp only [if_neg hbrk, if_neg hpage] at hcall
    exact h.afterLoop haddr (by omega) (Nat.mod_lt _ (by decide)) hcall

/-- Every call keeps the invariant, whatever it reports. -/
theorem Heap.Ok.run {st st' : Heap} (h : st.Ok) {c : HeapCall} (hc : c.target st < 2 ^ 32)
    {ok : Bool} (hrun : c.run st = some (ok, st')) : st'.Ok := by
  cases c with
  | brk addr =>
    obtain ⟨⟨r, st₁⟩, hcall, heq⟩ := Option.map_eq_some_iff.mp hrun
    cases heq
    exact h.brk hc hcall
  | sbrk increment =>
    obtain ⟨⟨r, st₁⟩, hcall, heq⟩ := Option.map_eq_some_iff.mp hrun
    cases heq
    rw [sbrk] at hcall
    by_cases h0 : increment = 0
    · rw [if_pos h0] at hcall
      cases hcall
      exact h
    · rw [if_neg h0] at hcall
      obtain ⟨⟨r₁, st₂⟩, hbrk, hcall⟩ := Option.bind_eq_some_iff.mp hcall
      have hok := h.brk (sbrkTarget_lt st increment) hbrk
      by_cases hr : r₁ = 0
      · simp only [if_neg (not_not_intro hr)] at hcall
        cases hcall
        exact hok
      · simp only [if_pos hr] at hcall
        cases hcall
        exact hok.setErrno enomem

/-- The invariant holds after any run of calls, failed or not. -/
theorem HeapReach.ok {P : Heap → HeapCall → Prop} {start st : Heap} (h : HeapReach P start st)
    (hstart : start.Ok) (htarget : ∀ st c, P st c → c.target st < 2 ^ 32) : st.Ok := by
  induction h with
  | start => exact hstart
  | call _ hc hrun ih => exact ih.run (htarget _ _ hc) hrun

/-- A heap at four megabytes on a machine whose 32 blocks are all taken. -/
def exhaustedHeap : Heap where
  paging := loneDirectory.setBalloc
    { mbmp := fun _ => 0xffffffff
      totalBlocks := 32
      usedBlocks := 32
      errno := 0
      touched := [] }
  brk := 0
  heapBase := 0x400000

theorem exhaustedHeap_none (b : ℕ) : ¬ exhaustedHeap.paging.balloc.IsNextFree b := by
  rintro ⟨-, hfirst⟩
  have hclear := hfirst.clear
  have hset : bitAt (fun _ => 2 ^ 32 - 1) b = true := by
    rw [bitAt, Nat.testBit_two_pow_sub_one, decide_eq_true (Nat.mod_lt _ (by decide))]
  exact absurd (hclear.symm.trans hset) (by decide)

theorem exhaustedHeap_ok : exhaustedHeap.Ok := by
  have hdir : ∀ d < 1023, loneDirectory.dirWord d = 0 := fun d hd => by
    rw [loneDirectory_dirWord, if_neg (by omega)]
  exact ⟨loneDirectory_ok.setBalloc rfl rfl fun d hd hne => absurd (hdir d hd) hne, by decide,
    by decide, .inl rfl, by decide⟩

end MissyKernel
