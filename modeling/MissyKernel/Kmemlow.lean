import MissyKernel.ByteMemory
import MissyKernel.WordBitmap

/-!
# The early frame allocator (`kmemlow.c`)

The allocator hands out 4096-byte frames before paging is on. Its bitmap is the
word array at `_mbitmap_physical` in physical memory, so every bitmap access here
is a load or a store of `mem`. The statics that only `kmemlow_init_allocator`
sets are grouped in `KmemlowLayout`; the other statics are fields of `Kmemlow`.

`touched` is a ghost field: the bitmap word indices that `allocate` and
`deallocate` have accessed, newest first. No function reads it.

Counters and addresses are 32-bit: sums and differences that can wrap are taken
modulo `2 ^ 32`.

The memory map comes from the boot information through `MultibootApi`, the answers of its three
queries; which answers these are is the business of `Multiboot` and the modules after it.
`alloc_cases` and `used_free` say once what a call does, in terms of the lowest clear bit and
of one bit; whoever needs more than that uses them and does not unfold the calls.
-/

namespace MissyKernel

/-- One entry of the memory map as `multiboot_get_mmap_next` fills it in
(`mmap_data`). -/
structure MmapData : Type where
  /-- first byte of the region -/
  base : BitVec 64
  /-- its length in bytes -/
  length : BitVec 64
  /-- 1 for available memory -/
  type : BitVec 32
  deriving DecidableEq

/-- What the boot information answers through the multiboot api. -/
structure MultibootApi : Type where
  /-- `multiboot_get_memsz`, in kilobytes -/
  memsz : BitVec 32
  /-- the entries `multiboot_get_mmap_next` returns before it returns -1 -/
  mmap : List MmapData
  /-- `multiboot_relocate`, as its effect on memory -/
  relocate : ℕ → Mem → Mem

/-- Where the linker put the kernel: `_mbitmap` is the last symbol of the image,
which starts at one megabyte and is linked `0xc0000000` higher. -/
structure KernelImage : Type where
  /-- link address of `_mbitmap` -/
  mbitmap : ℕ
  /-- the image starts at one megabyte -/
  above : 0xc0100000 ≤ mbitmap
  /-- link addresses have 32 bits -/
  below : mbitmap < 2 ^ 32

/-- The statics of `kmemlow.c` that only the initialisation sets. -/
structure KmemlowLayout : Type where
  /-- `_mbitmap_physical` -/
  mbitmapPhysical : ℕ
  /-- `total_blocks` -/
  totalBlocks : ℕ
  /-- `bitmap_size`, in words -/
  bitmapSize : ℕ
  /-- `_kernel_end_physical` -/
  kernelEndPhysical : ℕ

/-- The state of the early allocator: physical memory, its statics and the
global `kinit_errno`. -/
structure Kmemlow : Type where
  /-- physical memory -/
  mem : Mem
  /-- the statics the initialisation sets -/
  layout : KmemlowLayout
  /-- `used_blocks` -/
  usedBlocks : ℕ
  /-- `kinit_errno` -/
  kinitErrno : ℕ
  /-- ghost: bitmap words accessed by `allocate` and `deallocate` -/
  touched : List ℕ

/-- The statics as the C initialisers leave them, over any memory. -/
def Kmemlow.start (mem : Mem) (errno : ℕ) : Kmemlow where
  mem := mem
  layout := ⟨0, 0, 0, 0⟩
  usedBlocks := 0
  kinitErrno := errno
  touched := []

/-- `KMEMLOW_ERROR_ENOMEM` -/
def kmemlowErrorEnomem : ℕ := 0x01

namespace Kmemlow

/-- Address of `_mbitmap_physical[i]`. -/
def wordAddr (st : Kmemlow) (i : ℕ) : ℕ := (st.layout.mbitmapPhysical + 4 * i) % 2 ^ 32

/-- `_mbitmap_physical[i]` -/
def word (st : Kmemlow) (i : ℕ) : ℕ := st.mem.read32 (st.wordAddr i)

/-- `_mbitmap_physical[i] = v` -/
def setWord (st : Kmemlow) (i v : ℕ) : Kmemlow :=
  { st with mem := st.mem.write32 (st.wordAddr i) v }

/-- Replace the contents of memory. -/
def setMem (st : Kmemlow) (m : Mem) : Kmemlow := { st with mem := m }

/-- `allocate` -/
def allocate (st : Kmemlow) (block : ℕ) : Kmemlow :=
  let i := block / 32
  let j := block % 32
  { st.setWord i (st.word i ||| 1 <<< j) with touched := i :: st.touched }

/-- `deallocate` -/
def deallocate (st : Kmemlow) (block : ℕ) : Kmemlow :=
  let i := block / 32
  let j := block % 32
  { st.setWord i (st.word i &&& (0xffffffff ^^^ 1 <<< j)) with touched := i :: st.touched }

/-- The counting loop `reserve_region` and `free_region` share: `step` on each of
`blocks` frames from `align` on. -/
def regionLoop (step : Kmemlow → ℕ → Kmemlow) : ℕ → ℕ → Kmemlow → Kmemlow
  | 0, _, st => st
  | blocks + 1, align, st => regionLoop step blocks ((align + 1) % 2 ^ 32) (step st align)

/-- The body of the loop in `reserve_region`. -/
def reserveStep (st : Kmemlow) (block : ℕ) : Kmemlow :=
  { st.allocate block with usedBlocks := (st.usedBlocks + 1) % 2 ^ 32 }

/-- The body of the loop in `free_region`. -/
def freeStep (st : Kmemlow) (block : ℕ) : Kmemlow :=
  { st.deallocate block with usedBlocks := (st.usedBlocks + 2 ^ 32 - 1) % 2 ^ 32 }

/-- `reserve_region` -/
def reserveRegion (st : Kmemlow) (base length : ℕ) : Kmemlow :=
  regionLoop reserveStep (length / 4096) (base / 4096) st

/-- `free_region` -/
def freeRegion (st : Kmemlow) (base length : ℕ) : Kmemlow :=
  regionLoop freeStep (length / 4096) (base / 4096) st

/-- The loop that marks every frame as used. -/
def fillBitmap (st : Kmemlow) : ℕ → Kmemlow
  | 0 => st
  | n + 1 => (st.fillBitmap n).setWord n 0xffffffff

/-- The loop over the memory map. The 64-bit fields are truncated on the way
into `free_region`. -/
def freeAvailable (st : Kmemlow) (mmap : List MmapData) : Kmemlow :=
  mmap.foldl
    (fun st e =>
      if e.type = 1 then st.freeRegion (e.base.toNat % 2 ^ 32) (e.length.toNat % 2 ^ 32)
      else st)
    st

/-- `first_free`: the block, or 0 with `kinit_errno` set. -/
def firstFree (st : Kmemlow) : ℕ × Kmemlow :=
  match firstZero st.word (st.layout.totalBlocks / 32) with
  | some block => (block, st)
  | none => (0, { st with kinitErrno := kmemlowErrorEnomem })

end Kmemlow

/-- The layout `kmemlow_init_allocator` computes from the linker's symbol and
the memory size. -/
def kmemlowLayout (image : KernelImage) (api : MultibootApi) : KmemlowLayout :=
  let startAddress := (image.mbitmap + 2 ^ 32 - 0xc0000000) % 2 ^ 32
  let totalBlocks := (api.memsz.toNat * 1024) % 2 ^ 32 / 4096
  let bitmapSize := if totalBlocks % 32 > 0 then totalBlocks / 32 + 1 else totalBlocks / 32
  let kendPhys := (startAddress + bitmapSize * 4) % 2 ^ 32
  { mbitmapPhysical := startAddress
    totalBlocks := totalBlocks
    bitmapSize := bitmapSize
    kernelEndPhysical := ((kendPhys &&& (0xffffffff ^^^ 0xfff)) + 4096) % 2 ^ 32 }

/-- `kmemlow_init_allocator`. It always returns 0, so only the state is kept. -/
def kmemlowInitAllocator (image : KernelImage) (api : MultibootApi) (st : Kmemlow) : Kmemlow :=
  let layout := kmemlowLayout image api
  let st := { st with layout := layout, usedBlocks := layout.totalBlocks }
  let st := { st with mem := api.relocate layout.kernelEndPhysical st.mem }
  let st := st.fillBitmap layout.bitmapSize
  let st := st.freeAvailable api.mmap
  let kernelLength := (layout.kernelEndPhysical + 2 ^ 32 - 0x100000) % 2 ^ 32
  let st := st.reserveRegion 0x0 0x100000
  st.reserveRegion 0x100000 kernelLength

/-- `kmemlow_alloc`: the frame's address, or 0 for `NULL`. -/
def kmemlowAlloc (st : Kmemlow) : ℕ × Kmemlow :=
  let (freeBlock, st) := st.firstFree
  if freeBlock = 0 ∧ st.kinitErrno = kmemlowErrorEnomem then (0, st)
  else (freeBlock * 4096 % 2 ^ 32, st.allocate freeBlock)

/-- `kmemlow_get_total_blocks` -/
def kmemlowGetTotalBlocks (st : Kmemlow) : ℕ := st.layout.totalBlocks

/-- `kmemlow_get_used_blocks` -/
def kmemlowGetUsedBlocks (st : Kmemlow) : ℕ := st.usedBlocks

/-- `kmemlow_free` -/
def kmemlowFree (st : Kmemlow) (block : ℕ) : Kmemlow :=
  let allocatedBlock := block / 4096
  if allocatedBlock < st.layout.totalBlocks then st.deallocate allocatedBlock else st

/-! ## The layout in numbers -/

theorem and_pageMask {x : ℕ} (hx : x < 2 ^ 32) :
    x &&& (0xffffffff ^^^ 0xfff) = x / 4096 * 4096 :=
  and_not_low (k := 12) hx

variable (image : KernelImage) (api : MultibootApi)

theorem kmemlowLayout_mbitmapPhysical :
    (kmemlowLayout image api).mbitmapPhysical = image.mbitmap - 0xc0000000 := by
  have := image.above
  have := image.below
  simp only [kmemlowLayout]
  omega

theorem kmemlowLayout_totalBlocks_lt : (kmemlowLayout image api).totalBlocks < 2 ^ 20 := by
  simp only [kmemlowLayout]
  omega

/-- The bitmap has room for every block, and not for a whole word more. -/
theorem kmemlowLayout_bitmapSize :
    (kmemlowLayout image api).bitmapSize = ((kmemlowLayout image api).totalBlocks + 31) / 32 := by
  simp only [kmemlowLayout]
  split <;> omega

/-- The kernel end is the first page boundary above the bitmap. -/
theorem kmemlowLayout_kernelEndPhysical :
    (kmemlowLayout image api).kernelEndPhysical =
      ((kmemlowLayout image api).mbitmapPhysical + (kmemlowLayout image api).bitmapSize * 4) /
        4096 * 4096 + 4096 := by
  have hsize := kmemlowLayout_bitmapSize image api
  have htotal := kmemlowLayout_totalBlocks_lt image api
  have hstart := kmemlowLayout_mbitmapPhysical image api
  have := image.above
  have := image.below
  have hkend : (kmemlowLayout image api).kernelEndPhysical =
      ((((kmemlowLayout image api).mbitmapPhysical +
        (kmemlowLayout image api).bitmapSize * 4) % 2 ^ 32 &&&
          (0xffffffff ^^^ 0xfff)) + 4096) % 2 ^ 32 := rfl
  rw [hkend, and_pageMask (Nat.mod_lt _ (by omega))]
  omega

/-! ## One bitmap access -/

namespace Kmemlow

/-- Block `b` is marked in the bitmap. -/
def used (st : Kmemlow) (b : ℕ) : Bool := bitAt st.word b

variable {st : Kmemlow} {block i k v : ℕ}

@[simp] theorem allocate_layout (st : Kmemlow) (b : ℕ) : (st.allocate b).layout = st.layout := rfl

@[simp] theorem deallocate_layout (st : Kmemlow) (b : ℕ) :
    (st.deallocate b).layout = st.layout := rfl

@[simp] theorem setMem_mem (st : Kmemlow) (m : Mem) : (st.setMem m).mem = m := rfl

@[simp] theorem setMem_setMem (st : Kmemlow) (m m' : Mem) :
    (st.setMem m).setMem m' = st.setMem m' := rfl

@[simp] theorem setWord_layout (st : Kmemlow) (i v : ℕ) : (st.setWord i v).layout = st.layout := rfl

/-- The bitmap depends on memory and on where it lies. -/
theorem used_congr (st st' : Kmemlow) (hm : st'.mem = st.mem) (hl : st'.layout = st.layout) :
    st'.used = st.used := by
  have hword : st'.word = st.word := by
    funext i
    rw [word, word, wordAddr, wordAddr, hm, hl]
  funext b
  rw [used, used, hword]

/-- Bitmap addresses do not wrap: the bitmap starts below one gigabyte and has at
most `2 ^ 27` words. -/
theorem wordAddr_eq (hp : st.layout.mbitmapPhysical < 2 ^ 30) (hi : i < 2 ^ 27) :
    st.wordAddr i = st.layout.mbitmapPhysical + 4 * i :=
  Nat.mod_eq_of_lt (by omega)

theorem word_setWord (hp : st.layout.mbitmapPhysical < 2 ^ 30) (hi : i < 2 ^ 27)
    (hk : k < 2 ^ 27) :
    (st.setWord k v).word i = if i = k then v % 2 ^ 32 else st.word i := by
  have haddr : (st.setWord k v).wordAddr i = st.wordAddr i := rfl
  rw [word, haddr, setWord]
  by_cases hik : i = k
  · rw [if_pos hik, hik, Mem.read32_write32_self]
  · rw [if_neg hik, word, Mem.read32_write32_of_disjoint]
    rw [wordAddr_eq hp hi, wordAddr_eq hp hk]
    omega

theorem word_allocate (hp : st.layout.mbitmapPhysical < 2 ^ 30) (hb : block < 2 ^ 32)
    (hi : i < 2 ^ 27) : (st.allocate block).word i = setBit st.word block i := by
  have hlt : st.word (block / 32) ||| 1 <<< (block % 32) < 2 ^ 32 := by
    refine Nat.or_lt_two_pow (Mem.read32_lt _ _) ?_
    rw [Nat.one_shiftLeft]
    exact Nat.pow_lt_pow_right (by omega) (Nat.mod_lt _ (by omega))
  have hset : (st.allocate block).word i = (st.setWord (block / 32)
    (st.word (block / 32) ||| 1 <<< (block % 32))).word i := rfl
  rw [hset, word_setWord hp hi (by omega), Nat.mod_eq_of_lt hlt, setBit, Function.update_apply]

theorem word_deallocate (hp : st.layout.mbitmapPhysical < 2 ^ 30) (hb : block < 2 ^ 32)
    (hi : i < 2 ^ 27) : (st.deallocate block).word i = clearBit st.word block i := by
  have hlt : st.word (block / 32) &&& (0xffffffff ^^^ 1 <<< (block % 32)) < 2 ^ 32 :=
    lt_of_le_of_lt Nat.and_le_left (Mem.read32_lt _ _)
  have hset : (st.deallocate block).word i = (st.setWord (block / 32)
    (st.word (block / 32) &&& (0xffffffff ^^^ 1 <<< (block % 32)))).word i := rfl
  rw [hset, word_setWord hp hi (by omega), Nat.mod_eq_of_lt hlt, clearBit, Function.update_apply]

/-- `allocate` sets one bit and no other. -/
theorem used_allocate (hp : st.layout.mbitmapPhysical < 2 ^ 30) (hb : block < 2 ^ 32)
    (hi : i < 2 ^ 32) : (st.allocate block).used i = (st.used i || decide (i = block)) := by
  rw [used, bitAt_congr (w := setBit st.word block) (word_allocate hp hb (by omega)),
    bitAt_setBit, used]

/-- `deallocate` clears one bit and no other. -/
theorem used_deallocate (hp : st.layout.mbitmapPhysical < 2 ^ 30) (hb : block < 2 ^ 32)
    (hi : i < 2 ^ 32) : (st.deallocate block).used i = (st.used i && decide (i ≠ block)) := by
  rw [used, bitAt_congr (w := clearBit st.word block) (word_deallocate hp hb (by omega)),
    bitAt_clearBit, used]

/-! ## One call -/

/-- The frame an allocation takes: the lowest clear block of the scanned words.
Block 0 counts as a failure when `kinit_errno` still says so. -/
def IsNextFree (st : Kmemlow) (b : ℕ) : Prop :=
  IsFirstZero st.word (st.layout.totalBlocks / 32) b ∧
    ¬ (b = 0 ∧ st.kinitErrno = kmemlowErrorEnomem)

/-- What a call of `kmemlow_alloc` does. Without a frame to take it changes
nothing but `kinit_errno`. -/
theorem alloc_cases (st : Kmemlow) :
    (∃ b, st.IsNextFree b ∧ kmemlowAlloc st = (b * 4096 % 2 ^ 32, st.allocate b)) ∨
    ((∀ b, ¬ st.IsNextFree b) ∧ ∃ e, kmemlowAlloc st = (0, { st with kinitErrno := e })) := by
  rcases hz : firstZero st.word (st.layout.totalBlocks / 32) with _ | b
  · refine .inr ⟨fun b ⟨hb, _⟩ => ?_, kmemlowErrorEnomem, ?_⟩
    · rw [firstZero_eq_some.mpr hb] at hz
      cases hz
    · simp only [kmemlowAlloc, firstFree, hz, and_self, ↓reduceIte]
  · by_cases hfail : b = 0 ∧ st.kinitErrno = kmemlowErrorEnomem
    · refine .inr ⟨fun c ⟨hc, hc'⟩ => ?_, st.kinitErrno, ?_⟩
      · rw [firstZero_eq_some.mpr hc] at hz
        exact hc' ⟨by rw [Option.some.inj hz, hfail.1], hfail.2⟩
      · simp only [kmemlowAlloc, firstFree, hz, if_pos hfail]
    · refine .inl ⟨b, ⟨firstZero_eq_some.mp hz, hfail⟩, ?_⟩
      simp only [kmemlowAlloc, firstFree, hz, if_neg hfail]

/-- What a call of `kmemlow_free` does to the bits. -/
theorem used_free (hp : st.layout.mbitmapPhysical < 2 ^ 30) (ht : st.layout.totalBlocks ≤ 2 ^ 32)
    (p : ℕ) {c : ℕ} (hc : c < 2 ^ 32) :
    (kmemlowFree st p).used c =
      (st.used c && !(decide (p / 4096 < st.layout.totalBlocks) && decide (c = p / 4096))) := by
  rw [kmemlowFree]
  by_cases hlt : p / 4096 < st.layout.totalBlocks
  · rw [if_pos hlt, used_deallocate hp (by omega) hc]
    simp [hlt]
  · rw [if_neg hlt]
    simp [hlt]

@[simp] theorem alloc_layout (st : Kmemlow) : (kmemlowAlloc st).2.layout = st.layout := by
  obtain ⟨b, -, h⟩ | ⟨-, e, h⟩ := st.alloc_cases
  · rw [h, allocate_layout]
  · rw [h]

@[simp] theorem free_layout (st : Kmemlow) (p : ℕ) : (kmemlowFree st p).layout = st.layout := by
  rw [kmemlowFree]
  split <;> rfl

end Kmemlow

end MissyKernel
