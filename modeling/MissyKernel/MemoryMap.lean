import MissyKernel.KmemlowInit

/-!
# The memory map against the bitmap

Which blocks the initialisation should leave free is a statement about bytes: the
block lies in available memory, meets no other entry, and is not reserved. What
the loop frees is a statement about page numbers: base and length of an entry,
each truncated to 32 bits and each rounded down. The two agree exactly on the
maps whose entries name their whole pages (`NamesWholePages`).

The second half compares the words the initialisation accesses with the size of
the bitmap it allocated.

Both comparisons are exact, for every kernel image, every map and whatever the statics held
before. What a loader that keeps to pages hands over is covered by `namesWholePages_of_aligned`;
`unaligned_region_freed` is a map with one region that starts in the middle of a page. That the
memory of a machine has a hole below one megabyte is enough for the second comparison to fail:
`pc_leaves_bitmap` is a 64 MiB machine as it comes.
-/

namespace MissyKernel

/-! ## Bytes and blocks of a map -/

/-- Byte `a` lies in the region of the entry. -/
def MmapData.Covers (e : MmapData) (a : ℕ) : Prop :=
  e.base.toNat ≤ a ∧ a < e.base.toNat + e.length.toNat

/-- Byte `a` belongs to block `b`. -/
def InBlock (b a : ℕ) : Prop := 4096 * b ≤ a ∧ a < 4096 * (b + 1)

/-- All bytes of the block are available memory, and no entry of another type
touches it. -/
def PageAvailable (mmap : List MmapData) (b : ℕ) : Prop :=
  (∀ a, InBlock b a → ∃ e ∈ mmap, e.type = 1 ∧ e.Covers a) ∧
    ∀ a, InBlock b a → ∀ e ∈ mmap, e.type ≠ 1 → ¬ e.Covers a

/-- The blocks the initialisation is meant to leave free: available, and outside
the first megabyte and the kernel. -/
structure ShouldBeFree (mmap : List MmapData) (kernelEnd b : ℕ) : Prop where
  /-- the block is available memory throughout -/
  available : PageAvailable mmap b
  /-- it does not touch the first megabyte -/
  aboveMegabyte : ∀ a, InBlock b a → ¬ a < 0x100000
  /-- it does not touch the kernel image or the bitmap behind it -/
  aboveKernel : ∀ a, InBlock b a → ¬ (0x100000 ≤ a ∧ a < kernelEnd)

/-- After the initialisation, the clear bits below `total_blocks` are exactly the
blocks that are meant to be free. -/
def LeavesFreeExactly (image : KernelImage) (api : MultibootApi) (st : Kmemlow) : Prop :=
  ∀ b < (kmemlowInitAllocator image api st).layout.totalBlocks,
    (kmemlowInitAllocator image api st).used b = false ↔
      ShouldBeFree api.mmap (kmemlowInitAllocator image api st).layout.kernelEndPhysical b

/-- Between blocks `first` and `last` the map's entries name whole pages: each
page in the truncated, rounded range of an available entry is available memory,
and each page of available memory is in the range of one single entry. -/
structure NamesWholePages (mmap : List MmapData) (first last : ℕ) : Prop where
  /-- a named page is available memory -/
  named : ∀ b, first ≤ b → b < last → ∀ e ∈ mmap, e.type = 1 → b ∈ e.pages →
    PageAvailable mmap b
  /-- a page of available memory is named -/
  naming : ∀ b, first ≤ b → b < last → PageAvailable mmap b →
    ∃ e ∈ mmap, e.type = 1 ∧ b ∈ e.pages

variable {image : KernelImage} {api : MultibootApi} {st : Kmemlow} {mmap : List MmapData}

/-- The two reserved ranges, in blocks. -/
theorem shouldBeFree_iff {b : ℕ} :
    ShouldBeFree mmap (kmemlowLayout image api).kernelEndPhysical b ↔
      kernelBlocks image api ≤ b ∧ PageAvailable mmap b := by
  have hkend := kernelBlocks_eq image api
  obtain ⟨hlow, -⟩ := kernelBlocks_bounds image api
  constructor
  · rintro ⟨hav, hmeg, hker⟩
    refine ⟨?_, hav⟩
    have h1 := hmeg (4096 * b) ⟨le_refl _, by omega⟩
    have h2 := hker (4096 * b) ⟨le_refl _, by omega⟩
    omega
  · rintro ⟨hge, hav⟩
    refine ⟨hav, fun a ha => ?_, fun a ha => ?_⟩
    · have := ha.1
      omega
    · have := ha.1
      omega

/-- A block below `total_blocks` has a bit. -/
theorem lt_bitmapBits {b : ℕ} (hb : b < (kmemlowLayout image api).totalBlocks) :
    b < 32 * (kmemlowLayout image api).bitmapSize := by
  have := kmemlowLayout_bitmapSize image api
  omega

/-- **Exactly the maps that name whole pages are freed as intended.** A map can fail when the base
or the length of an available entry is not a multiple of 4096, when such an entry reaches 4 GiB
and its low 32 bits name other pages, or when it overlaps one of another type; none of these has
to do harm. Maps with none of them never fail (`namesWholePages_of_aligned`).

Both sides are compared block by block: a bit is clear after the passes where an entry names the
block and the kernel does not reach it, whatever the other entries say about it. -/
theorem leavesFreeExactly_iff (image : KernelImage) (api : MultibootApi) (st : Kmemlow) :
    LeavesFreeExactly image api st ↔
      NamesWholePages api.mmap (kernelBlocks image api) (kmemlowLayout image api).totalBlocks := by
  have hbit : ∀ b < (kmemlowLayout image api).totalBlocks,
      ((kmemlowInitAllocator image api st).used b = false ↔
        kernelBlocks image api ≤ b ∧ ∃ e ∈ api.mmap, e.type = 1 ∧ b ∈ e.pages) := by
    intro b hb
    rw [used_kmemlowInitAllocator (lt_bitmapBits hb), mem_availablePages]
  simp only [LeavesFreeExactly, kmemlowInitAllocator_layout, shouldBeFree_iff]
  constructor
  · intro h
    refine ⟨fun b hge hlt e he ht hp => ?_, fun b hge hlt hav => ?_⟩
    · exact ((h b hlt).mp ((hbit b hlt).mpr ⟨hge, e, he, ht, hp⟩)).2
    · exact ((hbit b hlt).mp ((h b hlt).mpr ⟨hge, hav⟩)).2
  · intro h b hb
    rw [hbit b hb]
    constructor
    · rintro ⟨hge, e, he, ht, hp⟩
      exact ⟨hge, h.named b hge hb e he ht hp⟩
    · rintro ⟨hge, hav⟩
      exact ⟨hge, h.naming b hge hb hav⟩

/-- The maps a careful loader hands over are freed as intended: entries are page
aligned and below 4 GiB, and available entries overlap no other ones. -/
theorem namesWholePages_of_aligned {first last : ℕ}
    (halign : ∀ e ∈ mmap, e.type = 1 → e.base.toNat % 4096 = 0 ∧ e.length.toNat % 4096 = 0)
    (hlow : ∀ e ∈ mmap, e.type = 1 → e.base.toNat < 2 ^ 32 ∧ e.length.toNat < 2 ^ 32)
    (hsep : ∀ e ∈ mmap, e.type = 1 → ∀ f ∈ mmap, f.type ≠ 1 → ∀ a, e.Covers a → ¬ f.Covers a) :
    NamesWholePages mmap first last := by
  have hcovers : ∀ e ∈ mmap, e.type = 1 → ∀ b a, InBlock b a → (e.Covers a ↔ b ∈ e.pages) := by
    intro e he ht b a ha
    obtain ⟨hb, hl⟩ := halign e he ht
    obtain ⟨hb', hl'⟩ := hlow e he ht
    have h1 := ha.1
    have h2 := ha.2
    rw [MmapData.mem_pages, MmapData.Covers, Nat.mod_eq_of_lt hb', Nat.mod_eq_of_lt hl']
    omega
  refine ⟨fun b _ _ e he ht hp => ⟨fun a ha => ?_, fun a ha f hf hft => ?_⟩, fun b _ _ hav => ?_⟩
  · exact ⟨e, he, ht, (hcovers e he ht b a ha).mpr hp⟩
  · exact hsep e he ht f hf hft a ((hcovers e he ht b a ha).mpr hp)
  · have hfirst : InBlock b (4096 * b) := ⟨le_refl _, by omega⟩
    obtain ⟨e, he, ht, hc⟩ := hav.1 _ hfirst
    exact ⟨e, he, ht, (hcovers e he ht b _ hfirst).mp hc⟩

/-- A kernel image that ends 64 KiB above one megabyte. -/
def smallImage : KernelImage := ⟨0xc0110000, by decide, by decide⟩

/-- A four-megabyte machine whose only available region is one page long and
starts in the middle of a page. -/
def unalignedApi : MultibootApi where
  memsz := 4096
  mmap := [⟨0x200800, 0x1000, 1⟩]
  relocate := fun _ m => m

/-- On a region that starts in the middle of block `0x200`, the whole block is
left free although its first half is not available memory. -/
theorem unaligned_region_freed :
    ¬ LeavesFreeExactly smallImage unalignedApi (Kmemlow.start (fun _ => 0) 0) := by
  intro h
  have hfree : (kmemlowInitAllocator smallImage unalignedApi
      (Kmemlow.start (fun _ => 0) 0)).used 0x200 = false := by
    rw [used_kmemlowInitAllocator (by decide)]
    decide
  have hshould := (h 0x200 (by rw [kmemlowInitAllocator_layout]; decide)).mp hfree
  obtain ⟨e, he, -, hc⟩ := hshould.available.1 0x200000 ⟨by decide, by decide⟩
  obtain rfl := List.mem_singleton.mp he
  exact absurd hc.1 (by decide)

/-! ## The words the initialisation accesses -/

/-- Every bitmap word that the block-by-block passes access has an index below
`bitmap_size`. -/
def StaysInBitmap (image : KernelImage) (api : MultibootApi) (st : Kmemlow) : Prop :=
  ∀ i ∈ (kmemlowInitAllocator image api st).touched,
    i < (kmemlowInitAllocator image api st).layout.bitmapSize

/-- The map and the kernel fit into the bitmap: the kernel end and the truncated
page range of each available entry end at a block the bitmap has a bit for. -/
structure FitsBitmap (image : KernelImage) (api : MultibootApi) : Prop where
  /-- the reserved blocks have bits -/
  kernel : kernelBlocks image api ≤ 32 * (kmemlowLayout image api).bitmapSize
  /-- the freed blocks have bits -/
  entry : ∀ e ∈ api.mmap, e.type = 1 → e.length.toNat % 2 ^ 32 / 4096 ≠ 0 →
    e.base.toNat % 2 ^ 32 / 4096 + e.length.toNat % 2 ^ 32 / 4096 ≤
      32 * (kmemlowLayout image api).bitmapSize

/-- **The initialisation stays inside the bitmap exactly when the map and the kernel fit into it.**
The bitmap is sized by the amount of memory, the blocks are numbered by address: the hole below one
megabyte already makes the two differ.

The accesses are those of the three passes, block by block (`mem_touched_kmemlowInitAllocator`),
and the last page of each range is the one to look at. -/
theorem staysInBitmap_iff (image : KernelImage) (api : MultibootApi) (mem : Mem) (errno : ℕ) :
    StaysInBitmap image api (Kmemlow.start mem errno) ↔ FitsBitmap image api := by
  obtain ⟨hlow, -⟩ := kernelBlocks_bounds image api
  simp only [StaysInBitmap, kmemlowInitAllocator_layout]
  have hmem : ∀ i, i ∈ (kmemlowInitAllocator image api (Kmemlow.start mem errno)).touched ↔
      ∃ b, (b ∈ availablePages api.mmap ∨ b < kernelBlocks image api) ∧ i = b / 32 :=
    fun _ => mem_touched_kmemlowInitAllocator rfl
  simp only [hmem]
  constructor
  · intro h
    refine ⟨?_, fun e he ht hne => ?_⟩
    · have := h _ ⟨kernelBlocks image api - 1, .inr (by omega), rfl⟩
      omega
    · have hlast : e.base.toNat % 2 ^ 32 / 4096 + e.length.toNat % 2 ^ 32 / 4096 - 1 ∈ e.pages :=
        MmapData.mem_pages.mpr ⟨by omega, by omega⟩
      have := h _ ⟨_, .inl (mem_availablePages.mpr ⟨e, he, ht, hlast⟩), rfl⟩
      omega
  · rintro ⟨hker, hent⟩ i ⟨b, hb | hb, rfl⟩
    · obtain ⟨e, he, ht, hp⟩ := mem_availablePages.mp hb
      obtain ⟨h1, h2⟩ := MmapData.mem_pages.mp hp
      have := hent e he ht (by omega)
      omega
    · omega

/-- A 64 MiB machine as loaders describe it: 640 KiB from 0, and 63 MiB from one
megabyte on. -/
def pcApi : MultibootApi where
  memsz := 640 + 64512
  mmap := [⟨0, 640 * 1024, 1⟩, ⟨0x100000, 64512 * 1024, 1⟩]
  relocate := fun _ m => m

/-- On a 64 MiB machine the initialisation clears bits of word 511 of a bitmap of
509 words. -/
theorem pc_leaves_bitmap :
    ¬ StaysInBitmap smallImage pcApi (Kmemlow.start (fun _ => 0) 0) := by
  intro h
  have htouched : 511 ∈ (kmemlowInitAllocator smallImage pcApi
      (Kmemlow.start (fun _ => 0) 0)).touched := by
    refine (mem_touched_kmemlowInitAllocator rfl).mpr ⟨16383, .inl ?_, by decide⟩
    refine mem_availablePages.mpr ⟨⟨0x100000, 64512 * 1024, 1⟩, by decide, rfl, ?_⟩
    exact MmapData.mem_pages.mpr ⟨by decide, by decide⟩
  have hlt := h 511 htouched
  rw [kmemlowInitAllocator_layout] at hlt
  exact absurd hlt (by decide)

end MissyKernel
