import MissyKernel.MapSurvival
import MissyKernel.BootTables

/-!
# `kernel_early_init`

The C half of the boot: it checks the boot information, initialises the frame allocator and
sets up the boot page tables, and the assembly stub that called it then turns paging on
with the directory it finds in `_page_directory`. A rejected boot information ends in
`early_panic`; what `ki_setup_paging` answers is dropped, so a boot that runs out of frames
goes on with whatever tables there are.

The setup takes five frames, and that many there have to be (`kiSetupPaging_ok_iff`): free
blocks above the kernel among those that the allocator scans.

Two things have to be brought together for this. `kernel_early_init` walks through the memory map
with the drivers' own calls, while the allocator was studied with the map as a list:
`exists_bootAnswers` says that wherever the function returns there was such a list. And the
frames that the setup takes were free after the initialisation (`five_clear_of_setup`), so five
of them had to be.
-/

namespace MissyKernel

/-- `_kernel_params_t` -/
structure KernelParams : Type where
  /-- `kernel_stack` -/
  kernelStack : ℕ
  /-- `kernel_heap` -/
  kernelHeap : ℕ
  /-- `kernel_memory_bitmap` -/
  kernelMemoryBitmap : ℕ
  /-- `allocator_total_blocks` -/
  allocatorTotalBlocks : ℕ
  /-- `allocator_used_blocks` -/
  allocatorUsedBlocks : ℕ

/-- The ways in which `kernel_early_init` ends, if it does. -/
inductive EarlyInit : Type where
  /-- in `early_panic`, which never returns -/
  | panic
  /-- it returns, and the stub turns paging on; `result` is what `ki_setup_paging` answered,
  which the code does not look at -/
  | returned (kparams : KernelParams) (result : ℤ) (paging : BootPaging)

/-- The loop over the memory map in `kmemlow_init_allocator`, with the statics of the
drivers. A driver's counter grows with every entry and stays below the number of entries,
so that `2 ^ 32` calls suffice. -/
def kmemlowMapLoop : ℕ → Kmemlow → MmapData × Multiboot → Option (Kmemlow × MmapData × Multiboot)
  | 0, _, _ => none
  | fuel + 1, k, s => do
    let (r, s) ← mmapNext k.mem s
    if r = -1 then some (k, s) else kmemlowMapLoop fuel (k.freeEntry s.1) s

/-- `kinit_errno = e` -/
def Kmemlow.setErrno (st : Kmemlow) (e : ℕ) : Kmemlow := { st with kinitErrno := e }

/-- `kmemlow_init_allocator`, call by call. `memoryMapBlock` is what its local variable
happens to be. Only the drivers set `kinit_errno` here. -/
def kmemlowInitCalls (image : KernelImage) (memoryMapBlock : MmapData) (k : Kmemlow)
    (st : Multiboot) : Option Kmemlow := do
  let (memsz, st) ← multibootGetMemsz k.mem st
  -- of the boot information the layout depends on the memory size only
  let layout := kmemlowLayout image ⟨BitVec.ofNat 32 memsz, [], fun _ m => m⟩
  let k := { k with layout := layout, usedBlocks := layout.totalBlocks }
  let (mem, st) := multibootRelocate k.mem st layout.kernelEndPhysical
  let k := { k with mem := mem }
  let k := k.fillBitmap layout.bitmapSize
  let (k, _, st) ← kmemlowMapLoop (2 ^ 32) k (memoryMapBlock, st)
  let kernelLength := (layout.kernelEndPhysical + 2 ^ 32 - 0x100000) % 2 ^ 32
  let k := k.reserveRegion 0x0 0x100000
  let k := k.reserveRegion 0x100000 kernelLength
  some (k.setErrno st.kinitErrno)

/-- `ki_get_kernel_stack_top` -/
def kiGetKernelStackTop : ℕ := kernelStackMapping + 4096 - 4

/-- `KERNEL_PHYSICAL_TO_VIRTUAL` -/
def kernelPhysicalToVirtual (x : ℕ) : ℕ := (x + 0xc0000000) % 2 ^ 32

/-- What `kernel_early_init` writes into `kparams`. -/
def kparamsOf (paging : BootPaging) : KernelParams where
  kernelStack := kiGetKernelStackTop
  kernelHeap := paging.kernelEndVirtual
  kernelMemoryBitmap := kernelPhysicalToVirtual paging.early.layout.mbitmapPhysical
  allocatorTotalBlocks := kmemlowGetTotalBlocks paging.early
  allocatorUsedBlocks := kmemlowGetUsedBlocks paging.early

/-- `kernel_early_init`, on the memory that the loader leaves. It is `none` where a call
does not return. -/
def kernelEarlyInit (image : KernelImage) (memoryMapBlock : MmapData) (m : Mem)
    (mbootHdr magic : ℕ) : Option EarlyInit := do
  let (result, st) ← multibootInit m (.start 0) mbootHdr magic
  if result ≠ 0 then some .panic
  else
    let k ← kmemlowInitCalls image memoryMapBlock (.start m st.kinitErrno) st
    let (result, paging) := kiSetupPaging (.start k)
    some (.returned (kparamsOf paging) result paging)

/-- The directory exists and has present entries for the first megabyte, the kernel, the
kernel stack and itself. -/
structure TablesFinished (bp : BootPaging) : Prop where
  /-- there is one -/
  directory : bp.pageDirectory ≠ 0
  /-- the first megabyte -/
  megabyte : Present (pageWord bp.early.mem bp.pageDirectory 0)
  /-- the kernel -/
  kernel : Present (pageWord bp.early.mem bp.pageDirectory 768)
  /-- the kernel stack -/
  stack : Present (pageWord bp.early.mem bp.pageDirectory 1022)
  /-- itself -/
  itself : Present (pageWord bp.early.mem bp.pageDirectory 1023)

/-- Paging is not entered with unfinished tables: where `kernel_early_init` returns, all
steps of `ki_setup_paging` have succeeded and the tables are finished. -/
def EntersFinished (outcome : Option EarlyInit) : Prop :=
  ∀ kparams result paging, outcome = some (.returned kparams result paging) →
    result = 0 ∧ TablesFinished paging

/-- The blocks that `kmemlow_alloc` can hand out after the initialisation: of the bitmap
words it scans, above the kernel, and in an available entry of the memory map. -/
def freeScanned (image : KernelImage) (api : MultibootApi) : Finset ℕ :=
  (Finset.range (32 * ((kmemlowLayout image api).totalBlocks / 32))).filter
    fun b => kernelBlocks image api ≤ b ∧ b ∈ availablePages api.mmap

/-- What the boot information answers while `kmemlow_init_allocator` runs: the memory size,
and the entries that are read while the bitmap is being written. -/
def InitAnswers (image : KernelImage) (memoryMapBlock : MmapData) (k : Kmemlow) (st : Multiboot)
    (api : MultibootApi) : Prop :=
  ∃ memsz st' k', multibootGetMemsz k.mem st = some (memsz, st') ∧
    api.memsz = BitVec.ofNat 32 memsz ∧
    api.relocate = (fun kernelEnd m => (multibootRelocate m st' kernelEnd).1) ∧
    mapLoop (2 ^ 32) (kmemlowFilled image api k)
      (memoryMapBlock,
        (multibootRelocate k.mem st' (kmemlowLayout image api).kernelEndPhysical).2) =
      some (api.mmap, k')

/-- The same for a boot whose structure was accepted. -/
def BootAnswers (image : KernelImage) (memoryMapBlock : MmapData) (m : Mem)
    (mbootHdr magic : ℕ) (api : MultibootApi) : Prop :=
  ∃ st, multibootInit m (.start 0) mbootHdr magic = some (0, st) ∧
    InitAnswers image memoryMapBlock (.start m st.kinitErrno) st api

variable {image : KernelImage} {api : MultibootApi} {old st : Kmemlow} {live new : List ℕ}
  {words : ℕ → ℕ → ℕ} {p : ℕ}

/-! ## Five frames -/

/-- A frame that the allocator finds during the setup was free before it. -/
theorem Built.fresh (h : Built image api old live st new words) (hne : (kmemlowAlloc st).1 ≠ 0) :
    ∃ b < 32 * ((kmemlowLayout image api).totalBlocks / 32),
      old.used b = false ∧ (kmemlowAlloc st).1 = b * 4096 := by
  obtain ⟨b, ⟨hfirst, -⟩, hcall⟩ | ⟨-, e, hcall⟩ := st.alloc_cases
  · have hlt := hfirst.lt
    rw [h.layout] at hlt
    have htotal := kmemlowLayout_totalBlocks_lt image api
    have hsize := kmemlowLayout_bitmapSize image api
    have hclear : st.used b = false := hfirst.clear
    rw [h.bits b (by omega), Bool.or_eq_false_iff] at hclear
    refine ⟨b, hlt, hclear.1, ?_⟩
    rw [hcall, Nat.mod_eq_of_lt (by omega)]
  · rw [hcall] at hne
    exact absurd rfl hne

/-- Since `old`, the frames `new` were taken, each from a scanned block that was free. -/
structure Taken (image : KernelImage) (api : MultibootApi) (old : Kmemlow) (live : List ℕ)
    (st : Kmemlow) (new : List ℕ) : Prop where
  /-- what was built in them -/
  built : ∃ words, Built image api old live st new words
  /-- the blocks -/
  blocks : ∃ blocks : List ℕ, blocks.map (· * 4096) = new ∧
    ∀ b ∈ blocks, b < 32 * ((kmemlowLayout image api).totalBlocks / 32) ∧ old.used b = false

/-- One more frame. -/
theorem Taken.cons (h : Taken image api old live st new) {st' : Kmemlow}
    (hb : Built image api old live st' (p :: new) words) (hp : p = (kmemlowAlloc st).1) :
    Taken image api old live st' (p :: new) := by
  obtain ⟨words', hb'⟩ := h.built
  obtain ⟨blocks, hmap, hclear⟩ := h.blocks
  obtain ⟨b, hlt, hold, hframe⟩ := hb'.fresh (hp ▸ hb.ne_zero List.mem_cons_self)
  refine ⟨⟨words, hb⟩, b :: blocks, ?_, List.forall_mem_cons.mpr ⟨⟨hlt, hold⟩, hclear⟩⟩
  rw [List.map_cons, hmap, ← hframe, hp]

namespace BootPaging

variable {bp : BootPaging}

theorem createPageDirectory_taken (h : Taken image api old live bp.early new)
    (hok : bp.createPageDirectory.1 = 0) :
    Taken image api old live bp.createPageDirectory.2.early
      (bp.createPageDirectory.2.pageDirectory :: new) := by
  have hframe : bp.createPageDirectory.2.pageDirectory = (kmemlowAlloc bp.early).1 := by
    rw [createPageDirectory]
    dsimp only
    split <;> rfl
  obtain ⟨words, hb⟩ := h.built
  obtain ⟨-, hres⟩ | ⟨d, early, hres, hb'⟩ := bp.createPageDirectory_cases hb
  · rw [hres] at hok
    cases hok
  · rw [hres] at hframe ⊢
    exact h.cons hb' hframe

theorem mapFirstMegabyte_taken (h : Taken image api old live bp.early new)
    (hdir : bp.pageDirectory ∈ new) (hok : bp.mapFirstMegabyte.1 = 0) :
    bp.mapFirstMegabyte.2.pageDirectory = bp.pageDirectory ∧
      Taken image api old live bp.mapFirstMegabyte.2.early
        (bp.mapFirstMegabyte.2.firstPagetable :: new) := by
  have hframe : bp.mapFirstMegabyte.2.firstPagetable = (kmemlowAlloc bp.early).1 := by
    rw [mapFirstMegabyte]
    dsimp only
    split <;> rfl
  obtain ⟨words, hb⟩ := h.built
  obtain ⟨-, hres⟩ | ⟨t, early, words', hres, hb', -, -, -⟩ := bp.mapFirstMegabyte_cases hb hdir
  · rw [hres] at hok
    cases hok
  · rw [hres] at hframe ⊢
    exact ⟨rfl, h.cons hb' hframe⟩

theorem mapKernel_taken (h : Taken image api old live bp.early new)
    (hdir : bp.pageDirectory ∈ new) (hok : bp.mapKernel.1 = 0) :
    Taken image api old live bp.mapKernel.2.early (bp.mapKernel.2.kernelPagetable :: new) := by
  have hframe : bp.mapKernel.2.kernelPagetable = (kmemlowAlloc bp.early).1 := by
    rw [mapKernel]
    dsimp only
    split <;> rfl
  obtain ⟨words, hb⟩ := h.built
  obtain ⟨-, hres⟩ | ⟨t, kend, early, words', hres, -, hb', -, -, -⟩ := bp.mapKernel_cases hb hdir
  · rw [hres] at hok
    cases hok
  · rw [hres] at hframe ⊢
    exact h.cons hb' hframe

/-- The stack takes two frames. -/
theorem createNewKernelStack_taken (h : Taken image api old live bp.early new)
    (hok : bp.createNewKernelStack.1 = 0) :
    ∃ st' table block, Taken image api old live st' (block :: table :: new) := by
  have hfail : ∀ bp : BootPaging, bp.noMemory.1 ≠ 0 := fun _ => (by decide : (-1 : ℤ) ≠ 0)
  rw [createNewKernelStack] at hok
  dsimp only at hok
  split_ifs at hok with hfirst hsecond
  · exact absurd hok (hfail _)
  · exact absurd hok (hfail _)
  · obtain ⟨words, hb⟩ := h.built
    obtain ⟨f, hb₁⟩ := hb.alloc hfirst
    obtain ⟨f', hb₂⟩ := hb₁.alloc hsecond
    exact ⟨_, _, _, (h.cons hb₁ rfl).cons hb₂ rfl⟩

end BootPaging

/-- A setup that succeeds has gone through its four steps. -/
theorem kiSetupPaging_steps {bp : BootPaging} (hok : (kiSetupPaging bp).1 = 0) :
    bp.createPageDirectory.1 = 0 ∧ bp.createPageDirectory.2.mapFirstMegabyte.1 = 0 ∧
      bp.createPageDirectory.2.mapFirstMegabyte.2.mapKernel.1 = 0 ∧
      bp.createPageDirectory.2.mapFirstMegabyte.2.mapKernel.2.createNewKernelStack.1 = 0 := by
  rw [kiSetupPaging] at hok
  dsimp only at hok
  split_ifs at hok with h₁ h₂ h₃ h₄
  · exact absurd hok h₁
  · exact absurd hok h₂
  · exact absurd hok h₃
  · exact absurd hok h₄
  · exact ⟨not_not.mp h₁, not_not.mp h₂, not_not.mp h₃, not_not.mp h₄⟩

/-- A setup that succeeds has taken five frames that were free before. -/
theorem five_clear_of_setup (h : BootReach image api (.early old live))
    (hok : (kiSetupPaging (.start old)).1 = 0) :
    ∃ blocks : List ℕ, blocks.Nodup ∧ 5 ≤ blocks.length ∧
      ∀ b ∈ blocks, b < 32 * ((kmemlowLayout image api).totalBlocks / 32) ∧
        old.used b = false := by
  obtain ⟨h₁, h₂, h₃, h₄⟩ := kiSetupPaging_steps hok
  have hnone : Taken image api old live (BootPaging.start old).early [] :=
    ⟨⟨_, Built.refl h fun _ _ => 0⟩, [], rfl, fun _ hb => absurd hb List.not_mem_nil⟩
  have hone := BootPaging.createPageDirectory_taken hnone h₁
  obtain ⟨hdir, htwo⟩ := BootPaging.mapFirstMegabyte_taken hone List.mem_cons_self h₂
  have hthree := BootPaging.mapKernel_taken htwo (by rw [hdir]; simp) h₃
  obtain ⟨st', table, block, hfive⟩ := BootPaging.createNewKernelStack_taken hthree h₄
  obtain ⟨words, hb⟩ := hfive.built
  obtain ⟨blocks, hmap, hclear⟩ := hfive.blocks
  refine ⟨blocks, List.Nodup.of_map (· * 4096) ?_, ?_, hclear⟩
  · rw [hmap]
    exact (List.nodup_append.mp hb.nodup).1
  · have hlength := congrArg List.length hmap
    rw [List.length_map] at hlength
    rw [hlength]
    exact le_refl 5

/-- The setup succeeds exactly when five scanned blocks are free. -/
theorem kiSetupPaging_ok_iff (h : BootReach image api (.early old live)) :
    (kiSetupPaging (.start old)).1 = 0 ↔
      5 ≤ ((Finset.range (32 * ((kmemlowLayout image api).totalBlocks / 32))).filter
        fun b => old.used b = false).card := by
  constructor
  · intro hok
    obtain ⟨blocks, hnd, hlen, hclear⟩ := five_clear_of_setup h hok
    rw [← List.toFinset_card_of_nodup hnd] at hlen
    refine hlen.trans (Finset.card_le_card fun b hb => ?_)
    obtain ⟨hlt, hold⟩ := hclear b (List.mem_toFinset.mp hb)
    exact Finset.mem_filter.mpr ⟨Finset.mem_range.mpr hlt, hold⟩
  · intro hcard
    obtain ⟨hout, -⟩ | ⟨bp, frame, words, hres, -⟩ := kiSetupPaging_cases h
    · rw [← Finset.length_toList] at hcard
      refine absurd hout (not_outOfFrames _ (Finset.nodup_toList _) hcard fun b hb => ?_)
      obtain ⟨hlt, hold⟩ := Finset.mem_filter.mp (Finset.mem_toList.mp hb)
      exact ⟨Finset.mem_range.mp hlt, hold⟩
    · rw [hres]

/-- And then the tables are finished. -/
theorem tablesFinished_of_ok (h : BootReach image api (.early old live))
    (hok : (kiSetupPaging (.start old)).1 = 0) :
    TablesFinished (kiSetupPaging (.start old)).2 := by
  obtain ⟨-, hfail⟩ | ⟨bp, frame, words, hres, -, hb, hfilled⟩ := kiSetupPaging_cases h
  · rw [hok] at hfail
    cases hfail
  rw [hres]
  have hpresent : ∀ q ∈ bootFrames bp frame, Present (q + 5) :=
    fun q hq => present_add_five (hb.page hq).1
  have hword := hfilled.directory
  refine ⟨hb.ne_zero (p := bp.pageDirectory) (by simp [bootFrames]), ?_, ?_, ?_, ?_⟩
  · rw [hword 0 (by decide)]
    exact hpresent bp.firstPagetable (by simp [bootFrames])
  · rw [hword 768 (by decide)]
    exact hpresent bp.kernelPagetable (by simp [bootFrames])
  · rw [hword 1022 (by decide)]
    exact hpresent bp.kernelStackMap (by simp [bootFrames])
  · rw [hword 1023 (by decide)]
    exact hpresent bp.pageDirectory (by simp [bootFrames])

/-! ## The calls before -/

namespace Kmemlow

/-- The error number is not read before the first allocation. -/
theorem foldl_setErrno {step : Kmemlow → ℕ → Kmemlow} {e : ℕ}
    (hstep : ∀ st b, step (st.setErrno e) b = (step st b).setErrno e) (l : List ℕ)
    (st : Kmemlow) : l.foldl step (st.setErrno e) = (l.foldl step st).setErrno e := by
  induction l generalizing st with
  | nil => rfl
  | cons b l ih => rw [List.foldl_cons, List.foldl_cons, hstep, ih]

theorem fillBitmap_setErrno (st : Kmemlow) (e n : ℕ) :
    (st.setErrno e).fillBitmap n = (st.fillBitmap n).setErrno e := by
  induction n with
  | zero => rfl
  | succ n ih => rw [fillBitmap, fillBitmap, ih]; rfl

end Kmemlow

theorem kmemlowInitAllocator_setErrno (image : KernelImage) (api : MultibootApi) (k : Kmemlow)
    (e : ℕ) :
    kmemlowInitAllocator image api (k.setErrno e) =
      (kmemlowInitAllocator image api k).setErrno e := by
  have hfilled : kmemlowFilled image api (k.setErrno e) =
      (kmemlowFilled image api k).setErrno e :=
    Kmemlow.fillBitmap_setErrno (kmemlowPlaced image api k) e _
  rw [kmemlowInitAllocator_eq, kmemlowInitAllocator_eq, hfilled,
    Kmemlow.foldl_setErrno fun _ _ => rfl, Kmemlow.foldl_setErrno fun _ _ => rfl]

/-- With the statics of the drivers the loop is the one of `mapLoop`. -/
theorem kmemlowMapLoop_iff {fuel : ℕ} {k k' : Kmemlow} {s : MmapData × Multiboot} :
    (∃ s', kmemlowMapLoop fuel k s = some (k', s')) ↔
      ∃ entries, mapLoop fuel k s = some (entries, k') := by
  induction fuel generalizing k s with
  | zero => simp [kmemlowMapLoop, mapLoop]
  | succ fuel ih =>
    rw [kmemlowMapLoop, mapLoop]
    rcases mmapNext k.mem s with _ | ⟨r, s₁⟩
    · simp
    · by_cases hr : r = -1
      · simp [hr]
      · simp [hr, ih, Option.bind_eq_some_iff]

theorem mapLoop_of_last {fuel : ℕ} {k : Kmemlow} {s s' : MmapData × Multiboot} (hfuel : 0 < fuel)
    (h : mmapNext k.mem s = some (-1, s')) : mapLoop fuel k s = some ([], k) := by
  obtain ⟨fuel, rfl⟩ := Nat.exists_eq_succ_of_ne_zero (Nat.ne_of_gt hfuel)
  exact mapLoop_last h

/-- Call by call the initialisation is the one that gets the answers as a whole. -/
theorem exists_initAnswers {memoryMapBlock : MmapData} {k k' : Kmemlow} {st : Multiboot}
    (h : kmemlowInitCalls image memoryMapBlock k st = some k') :
    ∃ api e, InitAnswers image memoryMapBlock k st api ∧
      k' = kmemlowInitAllocator image api (k.setErrno e) := by
  rw [kmemlowInitCalls] at h
  obtain ⟨⟨memsz, st'⟩, hmemsz, h⟩ := Option.bind_eq_some_iff.mp h
  dsimp only at h
  obtain ⟨⟨k₁, buf, st₁⟩, hloop, h⟩ := Option.bind_eq_some_iff.mp h
  obtain ⟨entries, hentries⟩ := kmemlowMapLoop_iff.mp ⟨_, hloop⟩
  let api : MultibootApi :=
    ⟨BitVec.ofNat 32 memsz, entries, fun kernelEnd m => (multibootRelocate m st' kernelEnd).1⟩
  refine ⟨api, st₁.kinitErrno, ⟨memsz, st', k₁, hmemsz, rfl, rfl, hentries⟩, ?_⟩
  rw [kmemlowInitAllocator_setErrno, ← Option.some.inj h, mapLoop_freeAvailable hentries]
  rfl

theorem InitAnswers.calls {memoryMapBlock : MmapData} {k : Kmemlow} {st : Multiboot}
    (h : InitAnswers image memoryMapBlock k st api) :
    ∃ e, kmemlowInitCalls image memoryMapBlock k st =
      some (kmemlowInitAllocator image api (k.setErrno e)) := by
  obtain ⟨memsz, entries, relocate⟩ := api
  obtain ⟨memsz, st', k₁, hmemsz, rfl, rfl, hentries⟩ := h
  obtain ⟨⟨buf, st₁⟩, hloop⟩ := kmemlowMapLoop_iff.mpr ⟨entries, hentries⟩
  refine ⟨st₁.kinitErrno, ?_⟩
  rw [kmemlowInitCalls, hmemsz]
  refine Option.bind_eq_some_iff.mpr ⟨_, rfl, ?_⟩
  dsimp only
  refine Option.bind_eq_some_iff.mpr ⟨(k₁, buf, st₁), hloop, ?_⟩
  rw [kmemlowInitAllocator_setErrno, mapLoop_freeAvailable hentries]
  rfl

/-! ## The whole boot -/

variable {memoryMapBlock : MmapData} {m : Mem} {mbootHdr magic : ℕ}

theorem Kmemlow.start_setErrno (m : Mem) (e e' : ℕ) :
    (Kmemlow.start m e).setErrno e' = Kmemlow.start m e' := rfl

/-- Where `kernel_early_init` returns, it has been given answers. -/
theorem exists_bootAnswers {kparams : KernelParams} {result : ℤ} {paging : BootPaging}
    (h : kernelEarlyInit image memoryMapBlock m mbootHdr magic =
      some (.returned kparams result paging)) :
    ∃ api e, BootAnswers image memoryMapBlock m mbootHdr magic api ∧
      kiSetupPaging (.start (kmemlowInitAllocator image api (Kmemlow.start m e))) =
        (result, paging) := by
  rw [kernelEarlyInit] at h
  obtain ⟨⟨r, st⟩, hinit, h⟩ := Option.bind_eq_some_iff.mp h
  dsimp only at h
  by_cases hr : r = 0
  · rw [if_neg (not_not.mpr hr)] at h
    obtain ⟨k, hcalls, h⟩ := Option.bind_eq_some_iff.mp h
    obtain ⟨api, e, hanswers, hk⟩ := exists_initAnswers hcalls
    rw [Kmemlow.start_setErrno] at hk
    refine ⟨api, e, ⟨st, hr ▸ hinit, hanswers⟩, ?_⟩
    rw [← hk]
    rcases hsetup : kiSetupPaging (.start k) with ⟨r', bp⟩
    rw [hsetup] at h
    obtain ⟨-, rfl, rfl⟩ := EarlyInit.returned.inj (Option.some.inj h)
    rfl
  · rw [if_pos hr] at h
    exact nomatch Option.some.inj h

/-- With answers, it returns. -/
theorem BootAnswers.returned (h : BootAnswers image memoryMapBlock m mbootHdr magic api) :
    ∃ kparams result paging e, kernelEarlyInit image memoryMapBlock m mbootHdr magic =
        some (.returned kparams result paging) ∧
      kiSetupPaging (.start (kmemlowInitAllocator image api (Kmemlow.start m e))) =
        (result, paging) := by
  obtain ⟨st, hinit, hanswers⟩ := h
  obtain ⟨e, hcalls⟩ := hanswers.calls
  rw [Kmemlow.start_setErrno] at hcalls
  rcases hsetup : kiSetupPaging (.start (kmemlowInitAllocator image api (Kmemlow.start m e)))
    with ⟨result, paging⟩
  refine ⟨kparamsOf paging, result, paging, e, ?_, hsetup⟩
  rw [kernelEarlyInit, hinit, Option.bind_eq_bind, Option.bind_some]
  dsimp only
  rw [if_neg (not_not.mpr rfl), hcalls, Option.bind_eq_bind, Option.bind_some, hsetup]

/-- The clear bits after the initialisation are the free blocks of the memory map. -/
theorem filter_clear_eq (image : KernelImage) (api : MultibootApi) (st : Kmemlow) :
    ((Finset.range (32 * ((kmemlowLayout image api).totalBlocks / 32))).filter
      fun b => (kmemlowInitAllocator image api st).used b = false) = freeScanned image api := by
  have hsize := kmemlowLayout_bitmapSize image api
  refine Finset.filter_congr fun b hb => used_kmemlowInitAllocator ?_
  have hlt := Finset.mem_range.mp hb
  omega

/-- **When the boot enters paging with finished tables**: whenever it gets past the allocator, at
least five scanned blocks above the kernel are free.

The answers of the boot information exist wherever the function returns. The five frames are those
of the directory, its three tables and the stack; each of them is one of the free blocks, and they
are distinct, and with five such blocks no allocation of the setup fails. -/
theorem enters_finished_iff (image : KernelImage) (memoryMapBlock : MmapData) (m : Mem)
    (mbootHdr magic : ℕ) :
    EntersFinished (kernelEarlyInit image memoryMapBlock m mbootHdr magic) ↔
      ∀ api, BootAnswers image memoryMapBlock m mbootHdr magic api →
        5 ≤ (freeScanned image api).card := by
  constructor
  · intro h api hanswers
    obtain ⟨kparams, result, paging, e, hreturned, hsetup⟩ := hanswers.returned
    have hok := congrArg Prod.fst hsetup
    rw [(h _ _ _ hreturned).1] at hok
    rwa [kiSetupPaging_ok_iff (.init m e), filter_clear_eq] at hok
  · intro h kparams result paging hreturned
    obtain ⟨api, e, hanswers, hsetup⟩ := exists_bootAnswers hreturned
    have hok := h api hanswers
    rw [← filter_clear_eq image api (Kmemlow.start m e), ← kiSetupPaging_ok_iff (.init m e)] at hok
    have hfinished := tablesFinished_of_ok (.init m e) hok
    rw [hsetup] at hok hfinished
    exact ⟨hok, hfinished⟩

/-- Without a frame for it there is no directory. -/
theorem kiSetupPaging_no_frame (hzero : (kmemlowAlloc old).1 = 0) :
    (kiSetupPaging (.start old)).1 = -1 ∧ (kiSetupPaging (.start old)).2.pageDirectory = 0 := by
  have hcreate : (BootPaging.start old).createPageDirectory =
      BootPaging.noMemory
        { BootPaging.start old with
          early := (kmemlowAlloc old).2, pageDirectory := (kmemlowAlloc old).1 } := by
    rw [BootPaging.createPageDirectory]
    exact if_pos hzero
  have hsetup : kiSetupPaging (.start old) = (BootPaging.start old).createPageDirectory := by
    rw [kiSetupPaging, hcreate]
    rfl
  rw [hsetup, hcreate]
  exact ⟨rfl, hzero⟩

/-- What the structure with the empty map answers. -/
theorem emptyInfo_answers :
    BootAnswers smallImage ⟨0, 0, 0⟩ emptyInfo 0x8000 multibootMagic
      ⟨65152, [], fun _ m => m⟩ := by
  have hflag : (infoFlags emptyInfo 0x8000).testBit 6 = true := by decide
  have hcount : mapEntries emptyInfo 0x8000 = 0 := by decide
  have hinit : multibootInit emptyInfo (.start 0) 0x8000 multibootMagic =
      some (0, acceptedFirst 0x8000) := by
    rw [multibootInit_aligned _ _ (by decide), if_pos rfl, initMultiboot_eq, if_neg (by decide),
      if_neg (by decide)]
    rfl
  let api : MultibootApi := ⟨65152, [], fun _ m => m⟩
  let k := kmemlowFilled smallImage api (.start emptyInfo 0)
  -- the walk reads flags and a length, far below the bitmap
  have hreads : ∀ a, WalkReads emptyInfo 0x8000 0 a → a < 0x9000 := by
    intro a ha
    cases ha with
    | flags hi => omega
    | length hi => omega
    | addr hc _ => rw [hcount] at hc; exact absurd hc (Nat.not_lt_zero 0)
    | sz hc _ => rw [hcount] at hc; exact absurd hc (Nat.not_lt_zero 0)
    | @entry j i hj hi =>
      have hlt := (hj.2 j hj.1 (le_refl j)).1
      rw [hcount] at hlt
      exact absurd hlt (Nat.not_lt_zero j)
  have hmem : ∀ a, WalkReads emptyInfo 0x8000 0 a → k.mem a = emptyInfo a := by
    intro a ha
    have hlt := hreads a ha
    have hsize := kmemlowLayout_bitmapSize smallImage api
    have htotal := kmemlowLayout_totalBlocks_lt smallImage api
    have hbitmap : (kmemlowLayout smallImage api).mbitmapPhysical = 0x110000 := by decide
    have hp : (kmemlowPlaced smallImage api (.start emptyInfo 0)).layout.mbitmapPhysical <
        2 ^ 30 := mbitmapPhysical_lt smallImage api
    refine Kmemlow.fillBitmap_mem_outside hp (by omega) (.inl ?_)
    change a < (kmemlowLayout smallImage api).mbitmapPhysical
    omega
  have hnext : mmapNext k.mem (⟨0, 0, 0⟩, acceptedFirst 0x8000) =
      some (-1, ⟨0, 0, 0⟩, acceptedFirst 0x8000) := by
    rw [mmapNext_congr (firstDriver_accepted 0x8000) hflag hmem]
    exact (firstDriver_steps hflag).past 0 _ _ (firstDriver_accepted 0x8000) (by rw [hcount])
  refine ⟨acceptedFirst 0x8000, hinit, 65152, acceptedFirst 0x8000, k, rfl, rfl, rfl, ?_⟩
  exact mapLoop_of_last (by decide) hnext

/-- Without available memory the boot enters paging without a directory. -/
theorem empty_map_enters_unfinished :
    (∃ kparams paging, kernelEarlyInit smallImage ⟨0, 0, 0⟩ emptyInfo 0x8000 multibootMagic =
        some (.returned kparams (-1) paging) ∧ paging.pageDirectory = 0) ∧
      ¬ EntersFinished
        (kernelEarlyInit smallImage ⟨0, 0, 0⟩ emptyInfo 0x8000 multibootMagic) := by
  obtain ⟨kparams, result, paging, e, hreturned, hsetup⟩ := emptyInfo_answers.returned
  have hnone : freeScanned smallImage ⟨65152, [], fun _ m => m⟩ = ∅ :=
    Finset.filter_eq_empty_iff.mpr fun b _ h => absurd h.2 List.not_mem_nil
  rw [← filter_clear_eq _ _ (Kmemlow.start emptyInfo e), Finset.filter_eq_empty_iff] at hnone
  obtain ⟨b, ⟨hfirst, -⟩, -⟩ | ⟨-, e', hcall⟩ := (kmemlowInitAllocator smallImage
    ⟨65152, [], fun _ m => m⟩ (Kmemlow.start emptyInfo e)).alloc_cases
  · exact absurd hfirst.clear (hnone (Finset.mem_range.mpr hfirst.lt))
  obtain ⟨hresult, hdirectory⟩ := kiSetupPaging_no_frame (congrArg Prod.fst hcall)
  rw [hsetup] at hresult hdirectory
  obtain rfl : result = -1 := hresult
  refine ⟨⟨kparams, paging, hreturned, hdirectory⟩, fun h => ?_⟩
  exact absurd (h _ _ _ hreturned).1 (by decide)

end MissyKernel
