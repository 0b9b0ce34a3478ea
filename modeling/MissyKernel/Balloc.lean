import MissyKernel.Runs
import MissyKernel.Kmemlow

/-!
# The kernel's frame allocator (`balloc.c`)

The allocator that takes over the early one's bitmap. `_mbmp` points at an array
of words in kernel memory; here it is the array itself. `touched` is a ghost
field as in `Kmemlow`: the words that single-block operations have accessed.

Block 0 is what the code returns for a failure as well, so an allocation that finds it clear
returns `NULL` and marks nothing. `allocateBlock_cases` says what an allocation does, in terms
of the lowest clear block of the scanned words (`IsNextFree`), and `used_deallocateBlock` what a
release does to the bits, for any pointer. Later modules use these two.
-/

namespace MissyKernel

/-- `ENOMEM` of `errno.h` -/
def enomem : ℕ := 2

/-- The statics of `balloc.c` and the global `errno`. -/
structure Balloc : Type where
  /-- `_mbmp` -/
  mbmp : ℕ → ℕ
  /-- `_total_blocks` -/
  totalBlocks : ℕ
  /-- `_used_blocks` -/
  usedBlocks : ℕ
  /-- `errno` -/
  errno : ℕ
  /-- ghost: bitmap words accessed by the single-block operations -/
  touched : List ℕ

namespace Balloc

/-- The statics as the C initialisers leave them. -/
def start : Balloc where
  mbmp := fun _ => 0
  totalBlocks := 0
  usedBlocks := 0
  errno := 0
  touched := []

/-- `block_is_allocated` -/
def blockIsAllocated (st : Balloc) (x : ℕ) : Bool := st.mbmp (x / 32) &&& 1 <<< (x % 32) ≠ 0

/-- Log an access to word `i`. -/
def touch (st : Balloc) (i : ℕ) : Balloc := { st with touched := i :: st.touched }

/-- `first_free`: the block, or 0 with `errno` set. -/
def firstFree (st : Balloc) : ℕ × Balloc :=
  match firstZero st.mbmp (st.totalBlocks / 32) with
  | some block => (block, st)
  | none => (0, { st with errno := enomem })

/-- `allocate` -/
def allocate (st : Balloc) (block : ℕ) : Balloc :=
  let i := block / 32
  let j := block % 32
  { st.touch i with
    mbmp := Function.update st.mbmp i (st.mbmp i ||| 1 <<< j)
    usedBlocks := (st.usedBlocks + 1) % 2 ^ 32 }

/-- `deallocate` -/
def deallocate (st : Balloc) (block : ℕ) : Balloc :=
  let i := block / 32
  let j := block % 32
  { st.touch i with
    mbmp := Function.update st.mbmp i (st.mbmp i &&& (0xffffffff ^^^ 1 <<< j))
    usedBlocks := (st.usedBlocks + 2 ^ 32 - 1) % 2 ^ 32 }

end Balloc

/-- `balloc_initialize` -/
def ballocInitialize (st : Balloc) (mbmp : ℕ → ℕ) (totalBlocks usedBlocks : ℕ) : Balloc :=
  { st with mbmp := mbmp, totalBlocks := totalBlocks, usedBlocks := usedBlocks }

/-- `balloc_allocate_block`: the frame's address, or 0 for `NULL`. -/
def ballocAllocateBlock (st : Balloc) : ℕ × Balloc :=
  let (freeBlock, st) := st.firstFree
  if freeBlock = 0 then (0, st) else (freeBlock * 4096 % 2 ^ 32, st.allocate freeBlock)

/-- `balloc_deallocate_block` -/
def ballocDeallocateBlock (st : Balloc) (block : ℕ) : Balloc :=
  let allocatedBlock := block / 4096
  let st' := st.touch (allocatedBlock / 32)
  if st.blockIsAllocated allocatedBlock then
    if allocatedBlock < st.totalBlocks then st'.deallocate allocatedBlock else st'
  else st'

/-- `balloc_get_total_blocks` -/
def ballocGetTotalBlocks (st : Balloc) : ℕ := st.totalBlocks

/-- `balloc_get_used_blocks` -/
def ballocGetUsedBlocks (st : Balloc) : ℕ := st.usedBlocks

/-- `balloc_get_free_blocks` -/
def ballocGetFreeBlocks (st : Balloc) : ℕ := (st.totalBlocks + 2 ^ 32 - st.usedBlocks) % 2 ^ 32

namespace Balloc

/-- Block `b` is marked in the bitmap. -/
def used (st : Balloc) (b : ℕ) : Bool := bitAt st.mbmp b

variable {st : Balloc} {b c p : ℕ}

theorem blockIsAllocated_eq (st : Balloc) (b : ℕ) : st.blockIsAllocated b = st.used b := by
  have h := and_shift_eq_zero (x := st.mbmp (b / 32)) (j := b % 32)
  rw [blockIsAllocated, used, bitAt]
  cases hb : (st.mbmp (b / 32)).testBit (b % 32) <;> simp [h, hb]

theorem used_allocate (st : Balloc) (b c : ℕ) :
    (st.allocate b).used c = (st.used c || decide (c = b)) := bitAt_setBit st.mbmp b c

theorem used_deallocate (st : Balloc) (b c : ℕ) :
    (st.deallocate b).used c = (st.used c && decide (c ≠ b)) := bitAt_clearBit st.mbmp b c

@[simp] theorem used_touch (st : Balloc) (i : ℕ) : (st.touch i).used = st.used := rfl

/-- The frame an allocation returns: the lowest clear block of the scanned words,
unless that is block 0, whose number means failure. -/
def IsNextFree (st : Balloc) (b : ℕ) : Prop :=
  0 < b ∧ IsFirstZero st.mbmp (st.totalBlocks / 32) b

/-- What a call of `balloc_allocate_block` does. Without a frame to return it
changes nothing but `errno`. -/
theorem allocateBlock_cases (st : Balloc) :
    (∃ b, st.IsNextFree b ∧
      ballocAllocateBlock st = (b * 4096 % 2 ^ 32, st.allocate b)) ∨
    ((∀ b, ¬ st.IsNextFree b) ∧ ∃ e, ballocAllocateBlock st = (0, { st with errno := e })) := by
  rcases hz : firstZero st.mbmp (st.totalBlocks / 32) with _ | b
  · refine .inr ⟨fun b ⟨_, hb⟩ => ?_, enomem, ?_⟩
    · rw [firstZero_eq_some.mpr hb] at hz
      cases hz
    · simp only [ballocAllocateBlock, firstFree, hz, ↓reduceIte]
  · have hfirst := firstZero_eq_some.mp hz
    by_cases hb : b = 0
    · subst hb
      refine .inr ⟨fun b ⟨hpos, hb⟩ => ?_, st.errno, ?_⟩
      · have hset := hb.lowest 0 hpos
        rw [hfirst.clear] at hset
        cases hset
      · simp only [ballocAllocateBlock, firstFree, hz, ↓reduceIte]
    · refine .inl ⟨b, ⟨by omega, hfirst⟩, ?_⟩
      simp only [ballocAllocateBlock, firstFree, hz, if_neg hb]

/-- There is at most one such frame. -/
theorem IsNextFree.unique (hb : st.IsNextFree b) (hc : st.IsNextFree c) : b = c :=
  Option.some.inj ((firstZero_eq_some.mpr hb.2).symm.trans (firstZero_eq_some.mpr hc.2))

theorem allocateBlock_of_nextFree (hb : st.IsNextFree b) :
    ballocAllocateBlock st = (b * 4096 % 2 ^ 32, st.allocate b) := by
  obtain ⟨c, hc, hcall⟩ | ⟨hnone, -⟩ := st.allocateBlock_cases
  · rw [hcall, hc.unique hb]
  · exact absurd hb (hnone b)

theorem allocateBlock_of_none (hnone : ∀ b, ¬ st.IsNextFree b) :
    ∃ e, ballocAllocateBlock st = (0, { st with errno := e }) := by
  obtain ⟨b, hb, -⟩ | ⟨-, h⟩ := st.allocateBlock_cases
  · exact absurd hb (hnone b)
  · exact h

/-- What a call of `balloc_deallocate_block` does to the bits. -/
theorem used_deallocateBlock (st : Balloc) (p c : ℕ) :
    (ballocDeallocateBlock st p).used c =
      (st.used c && !(decide (p / 4096 < st.totalBlocks) && decide (c = p / 4096))) := by
  rw [ballocDeallocateBlock]
  simp only [blockIsAllocated_eq]
  by_cases hset : st.used (p / 4096) = true
  · rw [if_pos hset]
    by_cases hlt : p / 4096 < st.totalBlocks
    · rw [if_pos hlt, used_deallocate, used_touch]
      simp [hlt]
    · rw [if_neg hlt, used_touch]
      simp [hlt]
  · rw [if_neg hset, used_touch]
    by_cases hc : c = p / 4096
    · rw [hc]
      simp [hset]
    · simp [hc]

theorem allocateBlock_totalBlocks (st : Balloc) :
    (ballocAllocateBlock st).2.totalBlocks = st.totalBlocks := by
  obtain ⟨b, -, hcall⟩ | ⟨-, e, hcall⟩ := st.allocateBlock_cases
  · rw [hcall]
    rfl
  · rw [hcall]

theorem deallocateBlock_totalBlocks (st : Balloc) (p : ℕ) :
    (ballocDeallocateBlock st p).totalBlocks = st.totalBlocks := by
  rw [ballocDeallocateBlock]
  split
  · split <;> rfl
  · rfl

end Balloc

end MissyKernel
