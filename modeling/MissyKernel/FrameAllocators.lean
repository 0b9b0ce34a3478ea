import MissyKernel.FrameOwnership

/-!
# The two frame allocators side by side

`kmemlow.c` and `balloc.c` scan the same bitmap for the first clear bit. What an
allocation is for is stated once, over the marks alone (`FindsFrame`), and
compared with each: the scans stop at the last whole word of the map although the
map itself is rounded up, and block 0 doubles as the failure value. Where neither
matters (block 0 is marked) the two are interchangeable, call by call.

Three results stand on this:
* `finds_every_frame_iff`: when each allocator finds the lowest clear block, and fails only where
  there is none;
* `balloc_accounting`: the counts that `balloc` answers, after any calls whatever;
* `allocators_interchangeable`: the relation `SameFrames` between the two states is kept by every
  call that both are asked for, and related states give the same answer.
-/

namespace MissyKernel

/-! ## What an allocation is for -/

/-- Block `b` is the lowest clear one of `1, …, total - 1`. -/
structure IsLowestFree (used : ℕ → Bool) (total b : ℕ) : Prop where
  /-- block 0 is not handed out -/
  pos : 1 ≤ b
  /-- it is managed -/
  lt : b < total
  /-- it is clear -/
  clear : used b = false
  /-- every lower one is marked -/
  lowest : ∀ c, 1 ≤ c → c < b → used c = true

/-- What an allocation that turned the marks `used` into `used'` and returned `r`
should have done; `same` says that it changed neither bitmap nor counters. -/
structure FindsFrame (used used' : ℕ → Bool) (total r : ℕ) (same : Prop) : Prop where
  /-- it fails exactly when every block from 1 on is marked -/
  null_iff : r = 0 ↔ ∀ b, 1 ≤ b → b < total → used b = true
  /-- a failure changes nothing -/
  unchanged : r = 0 → same
  /-- a success returns the lowest clear block and marks that block only -/
  marks : r ≠ 0 → ∃ b, IsLowestFree used total b ∧ r = b * 4096 ∧
    ∀ c < 2 ^ 32, used' c = (used c || decide (c = b))

/-- `kmemlow_alloc` finds a frame whenever there is one. -/
def KmemlowFindsFrame (st : Kmemlow) : Prop :=
  FindsFrame st.used (kmemlowAlloc st).2.used st.layout.totalBlocks (kmemlowAlloc st).1
    ((kmemlowAlloc st).2.mem = st.mem ∧ (kmemlowAlloc st).2.layout = st.layout ∧
      (kmemlowAlloc st).2.usedBlocks = st.usedBlocks)

/-- `balloc_allocate_block` finds a frame whenever there is one. -/
def BallocFindsFrame (st : Balloc) : Prop :=
  FindsFrame st.used (ballocAllocateBlock st).2.used st.totalBlocks (ballocAllocateBlock st).1
    ((ballocAllocateBlock st).2.mbmp = st.mbmp ∧
      (ballocAllocateBlock st).2.totalBlocks = st.totalBlocks ∧
      (ballocAllocateBlock st).2.usedBlocks = st.usedBlocks)

/-- The lowest clear block, if there is one, is where the scan can find and name
it: block 0 is not in its way, it lies in a whole word of the map, and its address
has 32 bits. -/
def ScanReaches (used : ℕ → Bool) (total : ℕ) : Prop :=
  ∀ b, IsLowestFree used total b → used 0 = true ∧ b < total / 32 * 32 ∧ b < 2 ^ 20

section Scan

variable {used used' : ℕ → Bool} {total b c r : ℕ} {same : Prop} {w : ℕ → ℕ}

theorem IsLowestFree.unique (hb : IsLowestFree used total b) (hc : IsLowestFree used total c) :
    b = c := by
  rcases Nat.lt_trichotomy b c with hlt | heq | hlt
  · exact absurd (hc.lowest b hb.pos hlt) (by simp [hb.clear])
  · exact heq
  · exact absurd (hb.lowest c hc.pos hlt) (by simp [hc.clear])

/-- Either there is a lowest clear block or there is no clear one. -/
theorem forall_used_iff :
    (∀ b, 1 ≤ b → b < total → used b = true) ↔ ∀ b, ¬ IsLowestFree used total b := by
  constructor
  · intro h b hb
    have hset := h b hb.pos hb.lt
    rw [hb.clear] at hset
    cases hset
  · intro h b hpos hlt
    induction b using Nat.strong_induction_on with
    | h b ih =>
      by_contra hset
      exact h b ⟨hpos, hlt, by simpa using hset, fun c hc hcb => ih c hcb hc (by omega)⟩

/-- What the scan finds, unless it is block 0, is the lowest clear block. -/
theorem IsFirstZero.isLowestFree (h : IsFirstZero w (total / 32) b) (hpos : 1 ≤ b) :
    IsLowestFree (bitAt w) total b := by
  have hlt := h.lt
  exact ⟨hpos, by omega, h.clear, fun c _ hc => h.lowest c hc⟩

/-- And it finds the lowest clear block where block 0 is marked and the block lies
in a whole word. -/
theorem IsLowestFree.isFirstZero (h : IsLowestFree (bitAt w) total b) (h0 : bitAt w 0 = true)
    (hlt : b < total / 32 * 32) : IsFirstZero w (total / 32) b := by
  refine ⟨by omega, h.clear, ?_⟩
  intro c hc
  rcases Nat.eq_zero_or_pos c with rfl | hpos
  · exact h0
  · exact h.lowest c hpos hc

/-- A scan that stops at a block from 1 on reaches the lowest clear block, as long
as its address has 32 bits. -/
theorem IsFirstZero.scanReaches_iff (h : IsFirstZero w (total / 32) b) (hpos : 1 ≤ b) :
    ScanReaches (bitAt w) total ↔ b < 2 ^ 20 := by
  have hlowest := h.isLowestFree hpos
  have hlt := h.lt
  constructor
  · intro hreach
    exact (hreach b hlowest).2.2
  · intro hb c hc
    obtain rfl := hlowest.unique hc
    exact ⟨h.lowest 0 hpos, by omega, hb⟩

/-- A scan that stops at no block from 1 on reaches the lowest clear block only
where there is none. -/
theorem scanReaches_iff_of_none (hnone : ∀ b, 1 ≤ b → ¬ IsFirstZero w (total / 32) b) :
    ScanReaches (bitAt w) total ↔ ∀ b, ¬ IsLowestFree (bitAt w) total b := by
  constructor
  · intro hreach b hb
    obtain ⟨h0, hlt, -⟩ := hreach b hb
    exact hnone b hb.pos (hb.isFirstZero h0 hlt)
  · intro h b hb
    exact absurd hb (h b)

/-- An allocation that marks the lowest clear block and returns its address is
right as long as the address has 32 bits. -/
theorem findsFrame_iff_of_found (hb : IsLowestFree used total b)
    (hused : ∀ c < 2 ^ 32, used' c = (used c || decide (c = b))) :
    FindsFrame used used' total (b * 4096 % 2 ^ 32) same ↔ b < 2 ^ 20 := by
  have hpos := hb.pos
  constructor
  · intro h
    by_cases hr : b * 4096 % 2 ^ 32 = 0
    · exact absurd hb (forall_used_iff.mp (h.null_iff.mp hr) b)
    · obtain ⟨c, hc, heq, -⟩ := h.marks hr
      obtain rfl := hb.unique hc
      omega
  · intro hlt
    have hne : b * 4096 % 2 ^ 32 ≠ 0 := by omega
    refine ⟨iff_of_false hne ?_, fun hr => absurd hr hne, fun _ => ⟨b, hb, by omega, hused⟩⟩
    rw [forall_used_iff]
    intro h
    exact h b hb

/-- An allocation that returns `NULL` and changes nothing is right exactly where
there is no clear block. -/
theorem findsFrame_iff_of_null (hsame : same) :
    FindsFrame used used' total 0 same ↔ ∀ b, ¬ IsLowestFree used total b := by
  rw [← forall_used_iff]
  constructor
  · intro h
    exact h.null_iff.mp rfl
  · intro h
    exact ⟨iff_of_true rfl h, fun _ => hsame, fun hne => absurd rfl hne⟩

end Scan

/-! ## The kernel's allocator -/

/-- `balloc_allocate_block` finds a frame exactly where its scan reaches it. -/
theorem ballocFindsFrame_iff (st : Balloc) :
    BallocFindsFrame st ↔ ScanReaches st.used st.totalBlocks := by
  obtain ⟨b, ⟨hpos, hfirst⟩, hcall⟩ | ⟨hnone, e, hcall⟩ := st.allocateBlock_cases
  · rw [BallocFindsFrame, hcall]
    refine (findsFrame_iff_of_found (hfirst.isLowestFree hpos) ?_).trans
      (hfirst.scanReaches_iff hpos).symm
    intro c _
    exact Balloc.used_allocate st b c
  · rw [BallocFindsFrame, hcall]
    refine (findsFrame_iff_of_null ⟨rfl, rfl, rfl⟩).trans (scanReaches_iff_of_none ?_).symm
    intro b hpos hfirst
    exact hnone b ⟨hpos, hfirst⟩

/-! ## The early allocator -/

/-- Where no block from 1 on is clear, block 0 stays as it is: it is marked, or
below the first whole word, or taken for a failure because of an old error. -/
def ZeroKept (st : Kmemlow) : Prop :=
  (∀ b, ¬ IsLowestFree st.used st.layout.totalBlocks b) →
    st.used 0 = true ∨ st.layout.totalBlocks < 32 ∨ st.kinitErrno = kmemlowErrorEnomem

/-- `kmemlow_alloc` finds a frame exactly where its scan reaches it and a failure
leaves block 0 alone. -/
theorem kmemlowFindsFrame_iff (st : Kmemlow) (hphys : st.layout.mbitmapPhysical < 2 ^ 30)
    (htotal : st.layout.totalBlocks < 2 ^ 32) :
    KmemlowFindsFrame st ↔ ScanReaches st.used st.layout.totalBlocks ∧ ZeroKept st := by
  obtain ⟨b, hnext, hcall⟩ | ⟨hnone, e, hcall⟩ := st.alloc_cases
  · have hlt := hnext.1.lt
    have hused : ∀ c < 2 ^ 32, (st.allocate b).used c = (st.used c || decide (c = b)) :=
      fun c hc => Kmemlow.used_allocate hphys (by omega) hc
    rw [KmemlowFindsFrame, hcall]
    rcases Nat.eq_zero_or_pos b with rfl | hpos
    · -- block 0 is marked although the call fails
      have hfails : ¬ ZeroKept st ∨ ∃ b, IsLowestFree st.used st.layout.totalBlocks b := by
        by_cases hfree : ∃ b, IsLowestFree st.used st.layout.totalBlocks b
        · exact .inr hfree
        · refine .inl fun hkept => ?_
          rcases hkept (not_exists.mp hfree) with hset | hsmall | herrno
          · exact absurd hset (by simp [Kmemlow.used, hnext.1.clear])
          · omega
          · exact hnext.2 ⟨rfl, herrno⟩
      refine iff_of_false ?_ ?_
      · intro h
        have hsame := h.unchanged rfl
        have hmark := hused 0 (by omega)
        rw [Kmemlow.used_congr st (st.allocate 0) hsame.1 hsame.2.1, Kmemlow.used,
          hnext.1.clear] at hmark
        simp at hmark
      · rintro ⟨hreach, hkept⟩
        rcases hfails with hfails | ⟨b, hb⟩
        · exact hfails hkept
        · exact absurd (hreach b hb).1 (by simp [Kmemlow.used, hnext.1.clear])
    · have hlowest := hnext.1.isLowestFree hpos
      refine (findsFrame_iff_of_found hlowest hused).trans ?_
      refine (hnext.1.scanReaches_iff hpos).symm.trans (iff_self_and.mpr ?_)
      intro _ hno
      exact absurd hlowest (hno b)
  · rw [KmemlowFindsFrame, hcall]
    refine (findsFrame_iff_of_null ⟨rfl, rfl, rfl⟩).trans ?_
    refine (scanReaches_iff_of_none ?_).symm.trans (iff_self_and.mpr ?_)
    · intro b hpos hfirst
      exact hnone b ⟨hfirst, fun h => by omega⟩
    · -- a clear block 0 in a whole word would be found, but for the old error
      intro _ _
      by_contra hnot
      obtain ⟨hclear, hsmall, herrno⟩ : st.used 0 ≠ true ∧ ¬ st.layout.totalBlocks < 32 ∧
          st.kinitErrno ≠ kmemlowErrorEnomem := by
        simpa only [not_or] using hnot
      refine hnone 0 ⟨⟨by omega, by simpa [Kmemlow.used] using hclear, ?_⟩, fun h => herrno h.2⟩
      intro c hc
      omega

/-- **When the allocators find a frame**: each exactly where its scan reaches the lowest clear
block, and the early one only if its failures leave block 0 alone.

For both, a call does one of two things (`alloc_cases`, `allocateBlock_cases`), and each of them is
compared with what an allocation is for. Frame 0 cannot be told from a failure, and the early
allocator may mark it all the same. -/
theorem finds_every_frame_iff (image : KernelImage) (early : Kmemlow) (kernel : Balloc)
    (hphys : early.layout.mbitmapPhysical = image.mbitmap - 0xc0000000)
    (htotal : early.layout.totalBlocks < 2 ^ 32) :
    (KmemlowFindsFrame early ↔
        ScanReaches early.used early.layout.totalBlocks ∧ ZeroKept early) ∧
      (BallocFindsFrame kernel ↔ ScanReaches kernel.used kernel.totalBlocks) := by
  have hbelow := image.below
  exact ⟨kmemlowFindsFrame_iff early (by omega) htotal, ballocFindsFrame_iff kernel⟩

/-- 64 blocks of which only block 0 is marked. -/
def wholeWords : Kmemlow where
  mem := fun a => if a = 0x110000 then 1 else 0
  layout := ⟨0x110000, 64, 2, 0x111000⟩
  usedBlocks := 1
  kinitErrno := kmemlowErrorEnomem
  touched := []

/-- Block 1 is found. -/
theorem wholeWords_finds : KmemlowFindsFrame wholeWords := by
  have hlowest : IsLowestFree wholeWords.used 64 1 := by
    refine ⟨by decide, by decide, by decide, ?_⟩
    intro c hc hlt
    omega
  refine (finds_every_frame_iff smallImage wholeWords .start rfl (by decide)).1.mpr ⟨?_, ?_⟩
  · intro b hb
    obtain rfl := hb.unique hlowest
    decide
  · intro hno
    exact absurd hlowest (hno 1)

/-- 33 blocks of which only the last one, alone in its word, is clear. -/
def lastBlockClear : Balloc where
  mbmp := fun i => if i = 0 then 0xffffffff else 0
  totalBlocks := 33
  usedBlocks := 32
  errno := 0
  touched := []

/-- The same map before the hand-over. -/
def lastBlockClearEarly : Kmemlow where
  mem := fun a => if a < 0x110004 then 0xff else 0
  layout := ⟨0x110000, 33, 2, 0x111000⟩
  usedBlocks := 32
  kinitErrno := 0
  touched := []

/-- The scans look at one word, and both calls fail. -/
theorem last_block_missed :
    ¬ BallocFindsFrame lastBlockClear ∧ ¬ KmemlowFindsFrame lastBlockClearEarly := by
  refine ⟨?_, ?_⟩
  · intro h
    have hset := h.null_iff.mp (by decide) 32 (by decide) (by decide)
    exact absurd hset (by decide)
  · intro h
    have hset := h.null_iff.mp (by decide +kernel) 32 (by decide) (by decide)
    exact absurd hset (by decide)

/-! ## The used-block counter of the kernel's allocator -/

/-- A call into a frame allocator. -/
inductive FrameCall : Type where
  /-- `kmemlow_alloc()` or `balloc_allocate_block()` -/
  | allocate
  /-- `kmemlow_free(p)` or `balloc_deallocate_block(p)` -/
  | release (p : ℕ)

namespace FrameCall

/-- The call made to `kmemlow`: what it returns (0 where it returns nothing) and
the state it leaves. -/
def kmemlow (st : Kmemlow) : FrameCall → ℕ × Kmemlow
  | allocate => kmemlowAlloc st
  | release p => (0, kmemlowFree st p)

/-- The call made to `balloc`. -/
def balloc (st : Balloc) : FrameCall → ℕ × Balloc
  | allocate => ballocAllocateBlock st
  | release p => (0, ballocDeallocateBlock st p)

/-- `kmemlow` after a run of calls. -/
def runKmemlow (calls : List FrameCall) (st : Kmemlow) : Kmemlow :=
  calls.foldl (fun st call => (call.kmemlow st).2) st

/-- `balloc` after a run of calls. -/
def runBalloc (calls : List FrameCall) (st : Balloc) : Balloc :=
  calls.foldl (fun st call => (call.balloc st).2) st

theorem runKmemlow_layout (calls : List FrameCall) (st : Kmemlow) :
    (runKmemlow calls st).layout = st.layout := by
  refine foldl_invariant (I := fun s => s.layout = st.layout) ?_ calls st rfl
  intro s call hs
  cases call with
  | allocate => exact (Kmemlow.alloc_layout s).trans hs
  | release p => exact (Kmemlow.free_layout s p).trans hs

end FrameCall

/-- `balloc` counts the bitmap `w` it was given: the counter is the number of
marked blocks and the blocks beyond `total` are as they were. -/
structure Counted (w : ℕ → ℕ) (total : ℕ) (st : Balloc) : Prop where
  /-- the bound does not move -/
  total_eq : st.totalBlocks = total
  /-- the counter is the number of marked blocks -/
  count : st.usedBlocks = bitCount st.mbmp total
  /-- no other block is touched -/
  beyond : ∀ b, total ≤ b → st.used b = bitAt w b

section Counted

variable {w : ℕ → ℕ} {total : ℕ} {st : Balloc}

theorem bitCount_le (w : ℕ → ℕ) (n : ℕ) : bitCount w n ≤ n := by
  have hsum := bitCount_add_clearCount w n
  omega

theorem Counted.allocate (h : Counted w total st) (htotal : total < 2 ^ 32) :
    Counted w total (ballocAllocateBlock st).2 := by
  obtain ⟨b, ⟨hpos, hfirst⟩, hcall⟩ | ⟨-, e, hcall⟩ := st.allocateBlock_cases
  · rw [hcall]
    have hlt := hfirst.lt
    rw [h.total_eq] at hlt
    have hcount : bitCount (st.allocate b).mbmp total = bitCount st.mbmp total + 1 :=
      bitCount_set (by omega) hfirst.clear fun c _ => Balloc.used_allocate st b c
    have hle := bitCount_le (st.allocate b).mbmp total
    refine ⟨h.total_eq, ?_, ?_⟩
    · change (st.usedBlocks + 1) % 2 ^ 32 = _
      rw [h.count, hcount, Nat.mod_eq_of_lt (by omega)]
    · intro c hc
      rw [Balloc.used_allocate, h.beyond c hc]
      simp [show c ≠ b by omega]
  · rw [hcall]
    exact ⟨h.total_eq, h.count, h.beyond⟩

theorem Counted.release (h : Counted w total st) (htotal : total < 2 ^ 32) (p : ℕ) :
    Counted w total (ballocDeallocateBlock st p) := by
  have hused := Balloc.used_deallocateBlock st p
  rw [h.total_eq] at hused
  refine ⟨(Balloc.deallocateBlock_totalBlocks st p).trans h.total_eq, ?_, ?_⟩
  · by_cases hfreed : st.used (p / 4096) = true ∧ p / 4096 < total
    · -- a marked block of the map is cleared, and the counter follows
      obtain ⟨hset, hlt⟩ := hfreed
      have hcount : bitCount (ballocDeallocateBlock st p).mbmp total + 1 =
          bitCount st.mbmp total := by
        refine bitCount_clear hlt hset ?_
        intro c _
        refine (hused c).trans ?_
        simp only [hlt, decide_true, Bool.true_and, decide_not]
        rfl
      have hle := bitCount_le st.mbmp total
      have hcounter : (ballocDeallocateBlock st p).usedBlocks =
          (st.usedBlocks + 2 ^ 32 - 1) % 2 ^ 32 := by
        rw [ballocDeallocateBlock]
        simp only [Balloc.blockIsAllocated_eq, hset, h.total_eq, hlt, if_true]
        rfl
      rw [hcounter, h.count]
      omega
    · -- nothing is cleared, and the counter stays
      have hcounter : (ballocDeallocateBlock st p).usedBlocks = st.usedBlocks := by
        rw [ballocDeallocateBlock]
        simp only [Balloc.blockIsAllocated_eq, h.total_eq]
        split
        · rw [if_neg fun hlt => hfreed ⟨by assumption, hlt⟩]
          rfl
        · rfl
      rw [hcounter, h.count]
      refine (bitCount_congr ?_).symm
      intro c hc
      refine (hused c).trans ?_
      rcases eq_or_ne c (p / 4096) with rfl | hne
      · have hclear : st.used (p / 4096) = false := by
          simpa using fun hset => hfreed ⟨hset, hc⟩
        rw [hclear, Bool.false_and]
        exact hclear.symm
      · simp only [hne, decide_false, Bool.and_false, Bool.not_false, Bool.and_true]
        rfl
  · intro c hc
    rw [hused c, h.beyond c hc]
    by_cases hlt : p / 4096 < total
    · simp [show c ≠ p / 4096 by omega]
    · simp [hlt]

theorem Counted.run (h : Counted w total st) (htotal : total < 2 ^ 32) (calls : List FrameCall) :
    Counted w total (FrameCall.runBalloc calls st) := by
  refine foldl_invariant ?_ calls st h
  intro s call hs
  cases call with
  | allocate => exact hs.allocate htotal
  | release p => exact hs.release htotal p

end Counted

/-- What `balloc` answers about a map that was `mbmp` at the start. -/
structure BallocCounts (mbmp : ℕ → ℕ) (total : ℕ) (st : Balloc) : Prop where
  /-- the used count is the number of marked blocks -/
  used : ballocGetUsedBlocks st = bitCount st.mbmp total
  /-- the free count is the number of clear ones -/
  free : ballocGetFreeBlocks st = clearCount st.mbmp total
  /-- neither has wrapped -/
  sum : ballocGetUsedBlocks st + ballocGetFreeBlocks st = total
  /-- the blocks beyond the map are as they were -/
  beyond : ∀ b, total ≤ b → st.used b = bitAt mbmp b

/-- **The kernel's accounting.** Given the right number at the start, `balloc` answers right after
every run of calls, whatever pointers are released.

A step either marks the block that the scan found clear and counts it, or clears a marked block of
the map and takes it off the count, or changes neither (`Counted`). Releasing a block twice, or one
behind the map, is of the third kind. -/
theorem balloc_accounting (st : Balloc) (mbmp : ℕ → ℕ) (total used : ℕ) (htotal : total < 2 ^ 32)
    (hused : used = bitCount mbmp total) (calls : List FrameCall) :
    BallocCounts mbmp total (FrameCall.runBalloc calls (ballocInitialize st mbmp total used)) := by
  have hstart : Counted mbmp total (ballocInitialize st mbmp total used) :=
    ⟨rfl, hused, fun _ _ => rfl⟩
  have hrun := hstart.run htotal calls
  generalize FrameCall.runBalloc calls (ballocInitialize st mbmp total used) = st' at hrun
  have hsum := bitCount_add_clearCount st'.mbmp total
  have hfree : ballocGetFreeBlocks st' = clearCount st'.mbmp total := by
    rw [ballocGetFreeBlocks, hrun.total_eq, hrun.count]
    omega
  refine ⟨hrun.count, hfree, ?_, hrun.beyond⟩
  rw [hfree, ballocGetUsedBlocks, hrun.count]
  exact hsum

/-- 33 blocks, of which block 0 is marked. Block 1 is taken; it is released, released once
more, and a page beyond the map is released. -/
theorem balloc_accounting_one_marked :
    (ballocAllocateBlock (ballocInitialize .start (fun i => if i = 0 then 1 else 0) 33 1)).1 =
        0x1000 ∧
      BallocCounts (fun i => if i = 0 then 1 else 0) 33 (FrameCall.runBalloc
        [.allocate, .release 0x1000, .release 0x1000, .release 0x100000]
        (ballocInitialize .start (fun i => if i = 0 then 1 else 0) 33 1)) :=
  ⟨by decide, balloc_accounting .start _ 33 1 (by decide) (by decide) _⟩

/-! ## The early allocator and the kernel's on one bitmap -/

/-- Both allocators manage the same blocks, have the same ones marked, and have
block 0 marked. -/
structure SameFrames (early : Kmemlow) (kernel : Balloc) : Prop where
  /-- the early bitmap lies in the first gigabyte -/
  phys : early.layout.mbitmapPhysical < 2 ^ 30
  /-- block numbers have 32 bits -/
  small : early.layout.totalBlocks < 2 ^ 32
  /-- the bounds agree -/
  total_eq : kernel.totalBlocks = early.layout.totalBlocks
  /-- the marks agree -/
  used_eq : ∀ b < early.layout.totalBlocks, kernel.used b = early.used b
  /-- block 0 is marked -/
  zero : early.used 0 = true

namespace SameFrames

variable {early : Kmemlow} {kernel : Balloc} {b : ℕ}

/-- The scans stop at the same block. -/
theorem isFirstZero_iff (h : SameFrames early kernel) :
    IsFirstZero kernel.mbmp (early.layout.totalBlocks / 32) b ↔
      IsFirstZero early.word (early.layout.totalBlocks / 32) b := by
  have hbit : ∀ c < 32 * (early.layout.totalBlocks / 32), bitAt kernel.mbmp c =
      bitAt early.word c := fun c hc => h.used_eq c (by omega)
  constructor
  · rintro ⟨hlt, hclear, hlowest⟩
    refine ⟨hlt, (hbit b hlt).symm.trans hclear, ?_⟩
    intro c hc
    exact (hbit c (by omega)).symm.trans (hlowest c hc)
  · rintro ⟨hlt, hclear, hlowest⟩
    refine ⟨hlt, (hbit b hlt).trans hclear, ?_⟩
    intro c hc
    exact (hbit c (by omega)).trans (hlowest c hc)

/-- And with block 0 marked, what stops them is a frame for both. -/
theorem isNextFree_iff (h : SameFrames early kernel) :
    kernel.IsNextFree b ↔ early.IsNextFree b := by
  rw [Balloc.IsNextFree, Kmemlow.IsNextFree, h.total_eq, h.isFirstZero_iff]
  constructor
  · rintro ⟨hpos, hfirst⟩
    exact ⟨hfirst, fun hz => by omega⟩
  · rintro ⟨hfirst, -⟩
    refine ⟨Nat.pos_of_ne_zero ?_, hfirst⟩
    rintro rfl
    have hzero := h.zero
    rw [Kmemlow.used, hfirst.clear] at hzero
    cases hzero

theorem allocate (h : SameFrames early kernel) :
    (kmemlowAlloc early).1 = (ballocAllocateBlock kernel).1 ∧
      SameFrames (kmemlowAlloc early).2 (ballocAllocateBlock kernel).2 := by
  obtain ⟨b, hnext, hcall⟩ | ⟨hnone, e, hcall⟩ := early.alloc_cases
  · have hlt := hnext.1.lt
    have hsmall := h.small
    have hused : ∀ c < 2 ^ 32, (early.allocate b).used c = (early.used c || decide (c = b)) :=
      fun c hc => Kmemlow.used_allocate h.phys (by omega) hc
    rw [hcall, Balloc.allocateBlock_of_nextFree (h.isNextFree_iff.mpr hnext)]
    refine ⟨rfl, h.phys, h.small, h.total_eq, ?_, ?_⟩
    · intro c hc
      have hc : c < early.layout.totalBlocks := hc
      rw [hused c (by omega), Balloc.used_allocate, h.used_eq c hc]
    · rw [hused 0 (by omega), h.zero, Bool.true_or]
  · have hnone' : ∀ b, ¬ kernel.IsNextFree b := fun b hb => hnone b (h.isNextFree_iff.mp hb)
    obtain ⟨e', hcall'⟩ := Balloc.allocateBlock_of_none hnone'
    rw [hcall, hcall']
    exact ⟨rfl, h.phys, h.small, h.total_eq, h.used_eq, h.zero⟩

theorem release {p : ℕ} (h : SameFrames early kernel) (hp : p / 4096 ≠ 0) :
    SameFrames (kmemlowFree early p) (ballocDeallocateBlock kernel p) := by
  have hsmall := h.small
  have hl := Kmemlow.free_layout early p
  have hused : ∀ c < 2 ^ 32, _ := fun c hc => Kmemlow.used_free h.phys (by omega) p hc
  refine ⟨by rw [hl]; exact h.phys, by rw [hl]; exact h.small, ?_, ?_, ?_⟩
  · rw [hl, Balloc.deallocateBlock_totalBlocks]
    exact h.total_eq
  · rw [hl]
    intro c hc
    rw [hused c (by omega), Balloc.used_deallocateBlock, h.total_eq, h.used_eq c hc]
  · rw [hused 0 (by omega), h.zero]
    simp [Ne.symm hp]

/-- One call returns the same in both and keeps them alike. -/
theorem call (h : SameFrames early kernel) {call : FrameCall}
    (hcall : ∀ p, call = .release p → p / 4096 ≠ 0) :
    (call.kmemlow early).1 = (call.balloc kernel).1 ∧
      SameFrames (call.kmemlow early).2 (call.balloc kernel).2 := by
  cases call with
  | allocate => exact h.allocate
  | release p => exact ⟨rfl, h.release (hcall p rfl)⟩

/-- A run of calls keeps them alike. -/
theorem run (h : SameFrames early kernel) {calls : List FrameCall}
    (hcalls : ∀ p, .release p ∈ calls → p / 4096 ≠ 0) :
    SameFrames (FrameCall.runKmemlow calls early) (FrameCall.runBalloc calls kernel) := by
  refine foldl_simulation (P := fun call => ∀ p, call = .release p → p / 4096 ≠ 0) ?_ calls
    early kernel ?_ h
  · intro s t call hcall hs
    exact (hs.call hcall).2
  · rintro call hmem p rfl
    exact hcalls p hmem

end SameFrames

/-- **The allocators are interchangeable** where block 0 is marked and never released: every call
of a run returns the same pointer from either and leaves the same blocks marked.

The simulation relation is `SameFrames`. The only calls the two treat differently are allocations
that find block 0 and releases of it, and neither occurs while it is marked. -/
theorem allocators_interchangeable (image : KernelImage) (early : Kmemlow) (kernel : Balloc)
    (hphys : early.layout.mbitmapPhysical = image.mbitmap - 0xc0000000)
    (hsmall : early.layout.totalBlocks < 2 ^ 32)
    (htotal : kernel.totalBlocks = early.layout.totalBlocks)
    (hused : ∀ b < early.layout.totalBlocks, kernel.used b = early.used b)
    (hzero : early.used 0 = true) (calls : List FrameCall)
    (hcalls : ∀ p, .release p ∈ calls → p / 4096 ≠ 0) :
    ∀ pre call, pre ++ [call] <+: calls →
      (call.kmemlow (FrameCall.runKmemlow pre early)).1 =
        (call.balloc (FrameCall.runBalloc pre kernel)).1 ∧
      ∀ b < early.layout.totalBlocks, (FrameCall.runBalloc (pre ++ [call]) kernel).used b =
        (FrameCall.runKmemlow (pre ++ [call]) early).used b := by
  have hbelow := image.below
  have h : SameFrames early kernel := ⟨by omega, hsmall, htotal, hused, hzero⟩
  intro pre call hpre
  have hcalls' : ∀ p, .release p ∈ pre ++ [call] → p / 4096 ≠ 0 :=
    fun p hp => hcalls p (hpre.subset hp)
  have hbefore := h.run fun p hp => hcalls' p (List.mem_append_left _ hp)
  have hafter := h.run hcalls'
  have hlayout := FrameCall.runKmemlow_layout (pre ++ [call]) early
  refine ⟨(hbefore.call ?_).1, ?_⟩
  · rintro p rfl
    exact hcalls' p (by simp)
  · have hbits := hafter.used_eq
    rw [hlayout] at hbits
    exact hbits

/-- With 64 blocks of which block 0 is marked, two frames are taken and the first is
given back; both allocators take it again. -/
theorem wholeWords_interchangeable :
    (FrameCall.allocate.kmemlow
        (FrameCall.runKmemlow [.allocate, .allocate, .release 0x1000] wholeWords)).1 =
      (FrameCall.allocate.balloc (FrameCall.runBalloc [.allocate, .allocate, .release 0x1000]
        (handOver wholeWords .start))).1 ∧
    ∀ b < 64, (FrameCall.runBalloc [.allocate, .allocate, .release 0x1000, .allocate]
        (handOver wholeWords .start)).used b =
      (FrameCall.runKmemlow [.allocate, .allocate, .release 0x1000, .allocate] wholeWords).used b :=
  allocators_interchangeable smallImage wholeWords (handOver wholeWords .start) rfl (by decide) rfl
    (fun _ _ => rfl) (by decide) [.allocate, .allocate, .release 0x1000, .allocate] (by simp)
    [.allocate, .allocate, .release 0x1000] .allocate (List.prefix_refl _)

end MissyKernel
