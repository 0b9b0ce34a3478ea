import MissyKernel.EarlyInit
import MissyKernel.HeapMemory

/-!
# From the boot to a running heap

`kernel_early_init` leaves page tables, a bitmap and the parameters of the kernel behind;
`kernel_main` hands the bitmap to its own allocator and lets the heap begin where the kernel
ends. What the boot mapped below the window lies apart, and no page of the heap is mapped yet,
so that the heap starts (`Booted.heapStart`, `Booted.apart`). From then on the kernel's memory is
flat: over every run of its heap it keeps what is stored, and what the boot mapped stays where it
is. The statics of the code, its stack and the words of the bitmap are kept beside this memory;
that neither a store into the heap nor the page manager writes where they lie is part of the
result (`BootedMemory.untouched`), and so is that the kernel finds the bitmap at the address it was
given.

Here all parts of the development meet: the boot information and its drivers, the early
allocator, the boot's tables, the kernel's allocator, the page manager and the break. The only
thing asked of the machine is that the setup succeeded, for which `EarlyInit` has the exact
condition, and that the kernel ends within the four megabytes of its one table.
-/

namespace MissyKernel

/-- The heap after `memory_setbase` and `memory_init_mmap`, which `kernel_main` calls with the
parameters of the boot; the bitmap is read where the boot left it. -/
def kernelHeap (kparams : KernelParams) (bp : BootPaging) (balloc : Balloc) : Heap where
  paging :=
    { phys := bp.early.mem
      cr3 := bp.pageDirectory
      balloc := ballocInitialize balloc bp.early.word kparams.allocatorTotalBlocks
        kparams.allocatorUsedBlocks }
  brk := 0
  heapBase := kparams.kernelHeap

/-- What holds of the running kernel's memory after `events`. -/
structure BootedMemory (kparams : KernelParams) (bp : BootPaging) (start : Heap)
    (events : List (MemoryEvent ℕ (BitVec 8) HeapCall)) (st : Heap) : Prop where
  /-- the break and the mapped heap agree -/
  agrees : BreakAgrees st
  /-- the heap holds what was stored last -/
  memory : ∀ v x, lastStored events v = some x → st.seen v = some x
  /-- the first megabyte, the kernel and the stack are not written to -/
  untouched : ∀ v x, start.seen v = some x → st.seen v = some x
  /-- what the boot mapped stays, and pages are added on frames that were free -/
  grown : start.paging.Extends st.paging
  /-- the kernel finds the bitmap at the address that it was given -/
  bitmap : ∀ a < 4 * bp.early.layout.bitmapSize,
    translate st.paging.phys st.paging.cr3 (kparams.kernelMemoryBitmap + a) =
      some (bp.early.layout.mbitmapPhysical + a)
  /-- a call that is supplied returns, and moves the break unless it asks for less than the heap -/
  calls : ∀ c, CallSupplied st c →
    ∃ ok st', c.run st = some (ok, st') ∧ CallKept st (c.target st) ok st'
  /-- a store into the heap, up to the page of the break, meets a page -/
  stores : ∀ v x, kparams.kernelHeap ≤ v → v / 4096 ≤ st.brk / 4096 →
    ∃ st', HeapStep st (.store v x) st'

section Start

variable {image : KernelImage} {api : MultibootApi} {old : Kmemlow} {live : List ℕ}
  {bp : BootPaging} {frame v p : ℕ} {words : ℕ → ℕ → ℕ}

/-- What the boot maps below the window, by the frame. -/
inductive BootMapped (bp : BootPaging) (frame v p : ℕ) : Prop where
  /-- the first megabyte -/
  | megabyte : v < 0x100000 → p = v → BootMapped bp frame v p
  /-- the kernel -/
  | kernel : 0xc0100000 ≤ v → v < bp.kernelEndVirtual → p = v - 0xc0000000 →
    BootMapped bp frame v p
  /-- the stack -/
  | stack : 0xffbff000 ≤ v → p = frame + (v - 0xffbff000) → BootMapped bp frame v p

/-- What the boot leaves to the kernel, in the terms of its tables. -/
structure Booted (image : KernelImage) (api : MultibootApi) (old : Kmemlow) (live : List ℕ)
    (bp : BootPaging) (frame : ℕ) : Prop where
  built : ∃ words, Built image api old live bp.early (bootFrames bp frame) words
  filled : BootFilled bp frame
  /-- the kernel ends within its table -/
  fits : bp.early.layout.kernelEndPhysical ≤ 0x400000
  endVirtual : bp.kernelEndVirtual = bp.early.layout.kernelEndPhysical + 0xc0000000

namespace Booted

theorem layout (h : Booted image api old live bp frame) :
    bp.early.layout = kmemlowLayout image api := by
  obtain ⟨words, hb⟩ := h.built
  exact hb.layout

/-- The kernel ends at a page, behind the first megabyte. -/
theorem kernelEnd (h : Booted image api old live bp frame) :
    bp.early.layout.kernelEndPhysical % 4096 = 0 ∧
      0x100000 < bp.early.layout.kernelEndPhysical := by
  have hpage := kernelBlocks_eq image api
  have hlow := (kernelBlocks_bounds image api).1
  rw [h.layout]
  omega

/-- The frames of the setup are marked pages behind the kernel. -/
theorem frames (h : Booted image api old live bp frame) (hp : p ∈ bootFrames bp frame) :
    p % 4096 = 0 ∧ bp.early.layout.kernelEndPhysical ≤ p ∧ bp.early.used (p / 4096) = true := by
  obtain ⟨words, hb⟩ := h.built
  obtain ⟨halign, hbehind, -⟩ := hb.page hp
  refine ⟨halign, h.layout ▸ hbehind, ?_⟩
  exact (FrameState.inv_of_reach hb.reach).2.marked p (List.mem_append_left _ hp)

/-- Below the kernel's end all is marked. -/
theorem marked_below (h : Booted image api old live bp frame)
    (hp : p < bp.early.layout.kernelEndPhysical) : bp.early.used (p / 4096) = true := by
  obtain ⟨words, hb⟩ := h.built
  have hpage := kernelBlocks_eq image api
  obtain ⟨-, hbehind, hend⟩ := hb.page (show bp.pageDirectory ∈ bootFrames bp frame by
    simp [bootFrames])
  rw [h.layout] at hp
  exact (FrameState.inv_of_reach hb.reach).2.reserved (p / 4096) (by omega) (by omega)

/-- The boot maps the first megabyte, the kernel and the stack. -/
theorem translate_iff (h : Booted image api old live bp frame) (hv : v < 0xffc00000) :
    translate bp.early.mem bp.pageDirectory v = some p ↔ BootMapped bp frame v p := by
  obtain ⟨hpage, hlow⟩ := h.kernelEnd
  have hend := h.endVirtual
  have hfits := h.fits
  rw [(h.filled.tables (by omega)).translate_below (fun p hp => (h.frames hp).1) (by omega)
    (by omega) hv]
  constructor
  · intro htr
    split_ifs at htr with hmegabyte hkernel hstack
    · exact .megabyte hmegabyte (Option.some.inj htr).symm
    · exact .kernel hkernel.1 hkernel.2 (Option.some.inj htr).symm
    · exact .stack hstack (Option.some.inj htr).symm
  · intro hmapped
    cases hmapped with
    | megabyte hlt heq => rw [if_pos hlt, heq]
    | kernel hge hlt heq => rw [if_neg (by omega), if_pos ⟨hge, hlt⟩, heq]
    | stack hge heq => rw [if_neg (by omega), if_neg (by omega), if_pos hge, heq]

/-- A byte of the kernel's memory or of its stack. -/
theorem mapped_cases (h : Booted image api old live bp frame) (hv : v < 0xffc00000)
    (hm : BootMapped bp frame v p) :
    p < bp.early.layout.kernelEndPhysical ∨ p / 4096 * 4096 = frame := by
  obtain ⟨hpage, hlow⟩ := h.kernelEnd
  have hend := h.endVirtual
  have hframe := (h.frames (show frame ∈ bootFrames bp frame by simp [bootFrames])).1
  cases hm with
  | megabyte hlt heq => omega
  | kernel hge hlt heq => omega
  | stack hge heq => omega

theorem mapped_injective (h : Booted image api old live bp frame) {w : ℕ} (hv : v < 0xffc00000)
    (hw : w < 0xffc00000) (hm : BootMapped bp frame v p) (hm' : BootMapped bp frame w p) :
    v = w := by
  obtain ⟨hpage, hlow⟩ := h.kernelEnd
  have hend := h.endVirtual
  have hframe := (h.frames (show frame ∈ bootFrames bp frame by simp [bootFrames])).2.1
  cases hm <;> cases hm' <;> omega

/-- The directory and the tables are frames of the setup other than the stack's. -/
theorem table_mem (h : Booted image api old live bp frame) {st : Paging}
    (hphys : st.phys = bp.early.mem) (hcr3 : st.cr3 = bp.pageDirectory) {d : ℕ} (hd : d < 1023)
    (hne : st.dirWord d ≠ 0) : st.table d ∈ bootFrames bp frame ∧ st.table d ≠ frame := by
  obtain ⟨words, hb⟩ := h.built
  have hnd := (List.nodup_append.mp hb.nodup).1
  have hword : st.dirWord d = directoryWords bp d := by
    rw [Paging.dirWord, hphys, hcr3]
    exact h.filled.directory d (by omega)
  rw [hword] at hne
  obtain ⟨t, ht, hdt⟩ := (directoryWords_cases bp hd).resolve_left hne
  obtain ⟨hmem, -⟩ := mem_bootFrames_of_table hnd ht
  have htable : st.table d = t := by
    rw [Paging.table, hword, hdt, entryFrame_add (h.frames hmem).1 (by decide)]
  rw [htable]
  refine ⟨hmem, ?_⟩
  rintro rfl
  have hnot := (List.nodup_cons.mp hnd).1
  simp only [List.mem_cons, List.not_mem_nil, or_false, not_or] at hnot ht
  obtain ⟨hstack, hkernel, hfirst, -⟩ := hnot
  rcases ht with rfl | rfl | rfl
  · exact hfirst rfl
  · exact hkernel rfl
  · exact hstack rfl

theorem apart (h : Booted image api old live bp frame) (balloc : Balloc) :
    (bootPaging bp balloc).Apart := by
  obtain ⟨words, hb⟩ := h.built
  have hnd := (List.nodup_append.mp hb.nodup).1
  have hdirectory : bp.pageDirectory ∈ bootFrames bp frame := by simp [bootFrames]
  have hstack : frame ∈ bootFrames bp frame := by simp [bootFrames]
  obtain ⟨hpage, -⟩ := h.kernelEnd
  refine ⟨fun v hv p htr => ?_, fun v hv p htr => ?_, fun v hv p htr d hd hne => ?_,
    fun v hv w hw p htr htr' => ?_⟩
  · change bp.early.used (p / 4096) = true
    obtain hbelow | hframe := h.mapped_cases hv ((h.translate_iff hv).mp htr)
    · exact h.marked_below hbelow
    · rw [show p / 4096 = frame / 4096 by omega]
      exact (h.frames hstack).2.2
  · change p / 4096 * 4096 ≠ bp.pageDirectory
    obtain hbelow | hframe := h.mapped_cases hv ((h.translate_iff hv).mp htr)
    · have hbehind := (h.frames hdirectory).2.1
      omega
    · rw [hframe]
      rintro rfl
      exact (List.nodup_cons.mp hnd).1 (by simp)
  · obtain ⟨hmem, hother⟩ : (bootPaging bp balloc).table d ∈ bootFrames bp frame ∧
        (bootPaging bp balloc).table d ≠ frame := h.table_mem rfl rfl hd hne
    obtain hbelow | hframe := h.mapped_cases hv ((h.translate_iff hv).mp htr)
    · have hbehind := (h.frames hmem).2.1
      omega
    · rw [hframe]
      exact hother
  · exact h.mapped_injective hv hw ((h.translate_iff hv).mp htr) ((h.translate_iff hw).mp htr')

theorem heapStart (h : Booted image api old live bp frame) (balloc : Balloc) :
    HeapStart (kernelHeap (kparamsOf bp) bp balloc) := by
  obtain ⟨words, hb⟩ := h.built
  obtain ⟨hpage, hlow⟩ := h.kernelEnd
  have hend := h.endVirtual
  have hfits := h.fits
  have hbase : (kernelHeap (kparamsOf bp) bp balloc).heapBase = bp.kernelEndVirtual := rfl
  refine ⟨⟨hb.bootPaging_ok h.filled balloc, by omega, by omega, .inl rfl, ?_⟩,
    fun d hd hne => ?_, rfl, fun k hk hk' => ?_⟩
  · change 0 < 2 ^ 32
    decide
  · have hmem : (bootPaging bp balloc).table d ∈ bootFrames bp frame :=
      (h.table_mem rfl rfl hd hne).1
    have hbehind := (h.frames hmem).2.1
    change (bootPaging bp balloc).table d ≠ 0
    omega
  · have hk' : k < 0xffbff := hk'
    rw [Option.eq_none_iff_forall_ne_some]
    intro p htr
    cases (h.translate_iff (show k * 4096 < 0xffc00000 by omega)).mp htr <;> omega

/-! ## Runs -/

variable {events : List (MemoryEvent ℕ (BitVec 8) HeapCall)} {st : Heap}

/-- The stores go to the heap. -/
theorem lastStored_outside {start : Heap} (hstart : HeapKept start start)
    (hrun : Traces HeapStep start events st) (hv : v < start.heapBase ∨ kernelStackMapping ≤ v) :
    lastStored events v = none := by
  have hinv := hrun.invariant
    (fun events st => HeapKept start st ∧ lastStored events v = none) ⟨hstart, rfl⟩ (by
      intro events event st st' h hstep
      obtain ⟨hkept, hnone⟩ := h
      refine ⟨(heapSteps start).keeps hkept hstep, ?_⟩
      cases hstep with
      | call hc hcall => rw [lastStored_other, hnone]
      | store x hlow hhigh htr =>
        have hbase := hkept.base
        rw [lastStored_store, if_neg (by omega), hnone])
  exact hinv.2

/-- The running kernel's memory. -/
theorem memory (h : Booted image api old live bp frame) (balloc : Balloc)
    (hrun : Traces HeapStep (kernelHeap (kparamsOf bp) bp balloc) events st) :
    BootedMemory (kparamsOf bp) bp (kernelHeap (kparamsOf bp) bp balloc) events st := by
  obtain ⟨hpage, hlow⟩ := h.kernelEnd
  have hend := h.endVirtual
  have hfits := h.fits
  have hinit : HeapKept (kernelHeap (kparamsOf bp) bp balloc)
      (kernelHeap (kparamsOf bp) bp balloc) :=
    ⟨(h.heapStart balloc).inv, h.apart balloc, .refl _, rfl⟩
  obtain ⟨hkept, hmemory⟩ := (heapSteps _).run hinit hrun
  have hmaps : ∀ v < 0xffc00000, ∀ p, BootMapped bp frame v p →
      translate st.paging.phys st.paging.cr3 v = some p := fun v hv p hm =>
    hkept.grown.maps v hv p ((h.translate_iff hv).mpr hm)
  refine ⟨hkept.inv.agrees, fun v x hx => hmemory v x (by rw [hx]; rfl), fun v x hx => ?_,
    hkept.grown, fun a ha => ?_, fun c hc => ?_, fun v x hv hbrk => ?_⟩
  · -- what the boot mapped lies outside the heap, and nothing is stored there
    have hv : v < 0xffc00000 := by
      by_contra hge
      rw [Heap.seen, if_neg hge] at hx
      cases hx
    refine hmemory v x ?_
    rw [lastStored_outside hinit hrun, hx]
    · rfl
    · rw [Heap.seen, if_pos hv] at hx
      obtain ⟨p, htr, -⟩ := Option.map_eq_some_iff.mp hx
      cases (h.translate_iff hv).mp htr with
      | megabyte hlt heq => exact .inl (show v < bp.kernelEndVirtual by omega)
      | kernel hge hlt heq => exact .inl hlt
      | stack hge heq => exact .inr hge
  · have hlast := bitmap_below_kernelEnd image api (i := a / 4) (by rw [h.layout] at ha; omega)
    have habove := image.above
    have hstart := kmemlowLayout_mbitmapPhysical image api
    have haddress : (kparamsOf bp).kernelMemoryBitmap =
        (bp.early.layout.mbitmapPhysical + 0xc0000000) % 2 ^ 32 := rfl
    rw [← h.layout] at hlast hstart
    exact hmaps _ (by omega) _ (.kernel (by omega) (by omega) (by omega))
  · exact hkept.inv.call_kept hkept.apart hc
  · refine hkept.inv.exists_store ?_ hbrk x
    rw [hkept.base]
    exact hv

/-! ## The first growth -/

/-- The setup takes five of the frames that the allocator finds. -/
theorem card_scannedFree (h : Booted image api old live bp frame) (balloc : Balloc) :
    ((Finset.range (32 * ((kmemlowLayout image api).totalBlocks / 32))).filter
      fun b => old.used b = false).card ≤
    (kernelHeap (kparamsOf bp) bp balloc).paging.balloc.scannedFree.card + 5 := by
  obtain ⟨words, hb⟩ := h.built
  have hsize := kmemlowLayout_bitmapSize image api
  have htotal : (kernelHeap (kparamsOf bp) bp balloc).paging.balloc.totalBlocks =
      (kmemlowLayout image api).totalBlocks := congrArg KmemlowLayout.totalBlocks h.layout
  have htaken : ((bootFrames bp frame).map (· / 4096)).toFinset.card ≤ 5 :=
    (List.toFinset_card_le _).trans_eq (List.length_map _)
  refine (Finset.card_le_card fun b hmem => ?_).trans
    ((Finset.card_union_le _ _).trans (Nat.add_le_add_left htaken _))
  obtain ⟨hlt, hclear⟩ := Finset.mem_filter.mp hmem
  have hbits := hb.bits b (by rw [Finset.mem_range] at hlt; omega)
  rw [hclear, Bool.false_or] at hbits
  by_cases hnew : b * 4096 ∈ bootFrames bp frame
  · refine Finset.mem_union_right _ (List.mem_toFinset.mpr (List.mem_map.mpr ⟨_, hnew, ?_⟩))
    omega
  · refine Finset.mem_union_left _ (Finset.mem_filter.mpr ⟨by rwa [htotal], ?_⟩)
    exact hbits.trans (decide_eq_false hnew)

/-- The kernel's table serves the first growth: it is supplied while frames are free. -/
theorem first_growth (h : Booted image api old live bp frame) (balloc : Balloc) {addr : ℕ}
    (hlow : bp.kernelEndVirtual ≤ addr) (hfit : addr < 0xc0400000)
    (hcard : addr / 4096 + 1 - bp.kernelEndVirtual / 4096 ≤
      (kernelHeap (kparamsOf bp) bp balloc).paging.balloc.scannedFree.card) :
    CallSupplied (kernelHeap (kparamsOf bp) bp balloc) (.brk addr) := by
  obtain ⟨hpage, hbehind⟩ := h.kernelEnd
  have hend := h.endVirtual
  have hfits := h.fits
  have hword : (kernelHeap (kparamsOf bp) bp balloc).paging.dirWord 768 =
      bp.kernelPagetable + 5 := h.filled.directory 768 (by decide)
  have htable : (kernelHeap (kparamsOf bp) bp balloc).paging.table 768 = bp.kernelPagetable := by
    rw [Paging.table, hword,
      entryFrame_add (h.frames (show _ ∈ bootFrames bp frame by simp [bootFrames])).1 (by decide)]
  -- the pages of the growth lie behind the kernel, in the part of its table
  have hpages : ∀ k, bp.kernelEndVirtual / 4096 ≤ k →
      k < bp.kernelEndVirtual / 4096 + (addr / 4096 + 1 - bp.kernelEndVirtual / 4096) →
      k / 1024 = 768 ∧ bp.kernelEndVirtual ≤ 0xc0000000 + 4096 * (k % 1024) := by omega
  refine ⟨lt_trans hfit (by decide), .inr (.inr ⟨?_, ⟨fun k hk hk' _ => ?_, ?_⟩⟩)⟩
  · change 0 < addr / 4096 + 1 - bp.kernelEndVirtual / 4096
    omega
  · obtain ⟨hdir, hbehind⟩ := hpages k hk hk'
    have hj : ptableEntry (k * 4096) = k % 1024 := by
      rw [ptableEntry_eq, Nat.mul_div_cancel k (by decide)]
    rw [show pdirEntry (k * 4096) = 768 by rw [pdirEntry_eq]; omega, Paging.entry, htable, hj]
    refine ((h.filled.tables (by omega)).kernel _ (Nat.mod_lt k (by decide))).trans ?_
    rw [kernelWords, if_neg (by omega)]
  · refine Supplies.of_card _ (fun k hk hk' => ?_) (h.marked_below (p := 0) (by omega)) hcard
    rw [(hpages k hk hk').1]
    refine decide_eq_true ?_
    rw [hword]
    omega

end Booted

end Start

/-! ## The whole boot -/

section Boot

variable {image : KernelImage} {memoryMapBlock : MmapData} {m : Mem} {mbootHdr magic : ℕ}
  {kparams : KernelParams} {bp : BootPaging}

theorem kparams_of_earlyInit {result : ℤ}
    (h : kernelEarlyInit image memoryMapBlock m mbootHdr magic =
      some (.returned kparams result bp)) : kparams = kparamsOf bp := by
  rw [kernelEarlyInit] at h
  obtain ⟨⟨r, st⟩, -, h⟩ := Option.bind_eq_some_iff.mp h
  dsimp only at h
  split at h
  · cases h
  · obtain ⟨k, -, h⟩ := Option.bind_eq_some_iff.mp h
    obtain ⟨hkparams, -, rfl⟩ := EarlyInit.returned.inj (Option.some.inj h)
    exact hkparams.symm

theorem booted_of_setup {api : MultibootApi} {e : ℕ}
    (hsetup : kiSetupPaging (.start (kmemlowInitAllocator image api (Kmemlow.start m e))) =
      (0, bp)) :
    bp.early.layout = kmemlowLayout image api ∧
      (bp.early.layout.kernelEndPhysical ≤ 0x400000 →
        ∃ frame, Booted image api (kmemlowInitAllocator image api (.start m e)) [] bp frame) := by
  have hstart : BootReach image api (.early (kmemlowInitAllocator image api (.start m e)) []) :=
    .init m e
  obtain ⟨-, hfail⟩ | ⟨bp', frame, words, hres, hkend, hb, hfilled⟩ := kiSetupPaging_cases hstart
  · rw [hsetup] at hfail
    cases hfail
  · rw [hsetup] at hres
    cases hres
    refine ⟨hb.layout, fun hfits => ⟨frame, ⟨words, hb⟩, hfilled, hfits, ?_⟩⟩
    rw [← hb.layout] at hkend
    omega

theorem booted_of_earlyInit (h : kernelEarlyInit image memoryMapBlock m mbootHdr magic =
    some (.returned kparams 0 bp)) (hfits : bp.early.layout.kernelEndPhysical ≤ 0x400000) :
    ∃ api old frame, Booted image api old [] bp frame := by
  obtain ⟨api, e, -, hsetup⟩ := exists_bootAnswers h
  obtain ⟨frame, hbooted⟩ := (booted_of_setup hsetup).2 hfits
  exact ⟨api, _, frame, hbooted⟩

end Boot

/-- **The booted kernel's memory is flat.** Whatever the boot information was, if
`kernel_early_init` set its tables up and the kernel ends within four megabytes: after every run of
the heap, in which supplied calls of `brk` and `sbrk` and stores into heap pages come in any order,
the heap holds what was stored last, the boot's pages are where they were and no store and no page
table went to them, and the heap's pages are on frames that were free.

The boot leaves the invariant of the heap behind, and the rule of `FlatMemory` carries it over the
run; what the boot mapped is seen at addresses outside the heap, and nothing is stored there. -/
theorem booted_memory (image : KernelImage) (memoryMapBlock : MmapData) (m : Mem)
    (mbootHdr magic : ℕ) (kparams : KernelParams) (bp : BootPaging)
    (hboot : kernelEarlyInit image memoryMapBlock m mbootHdr magic =
      some (.returned kparams 0 bp))
    (hfits : bp.early.layout.kernelEndPhysical ≤ 0x400000) (balloc : Balloc)
    (events : List (MemoryEvent ℕ (BitVec 8) HeapCall)) (st : Heap)
    (hrun : Traces HeapStep (kernelHeap kparams bp balloc) events st) :
    BootedMemory kparams bp (kernelHeap kparams bp balloc) events st := by
  obtain rfl := kparams_of_earlyInit hboot
  obtain ⟨api, old, frame, hbooted⟩ := booted_of_earlyInit hboot hfits
  exact hbooted.memory balloc hrun

/-! ## A machine of 64 MiB -/

/-- What the boot information of `pcInfo` answers. -/
def pcInfoApi : MultibootApi := bootApi pcInfo (acceptedFirst 0x8000) ⟨0, 0, 0⟩

/-- Its entries, read before the initialisation and while it runs. -/
theorem pcInfo_entries :
    mapWalk pcInfo (2 ^ 32) (⟨0, 0, 0⟩, acceptedFirst 0x8000) = some pcInfoApi.mmap ∧
      (mapLoop (2 ^ 32) (loopStart smallImage (Kmemlow.start pcInfo 0) (acceptedFirst 0x8000)
        ⟨0, 0, 0⟩).1 (⟨0, 0, 0⟩, acceptedFirst 0x8000)).map Prod.fst = some pcInfoApi.mmap := by
  have hcount : mapEntries pcInfo 0x8000 = 2 := by decide
  have hsome : (mapWalk pcInfo (2 ^ 32 - 1 + 1) (⟨0, 0, 0⟩, acceptedFirst 0x8000)).isSome :=
    mapWalk_isSome (firstDriver_accepted 0x8000) (by decide) (by omega)
  obtain ⟨entries, hwalk⟩ := Option.isSome_iff_exists.mp hsome
  have hmmap : pcInfoApi.mmap = entries := by
    rw [pcInfoApi, bootApi]
    exact congrArg (Option.getD · []) hwalk
  have hloop := mapLoop_of_apart (k := Kmemlow.start pcInfo 0) (firstDriver_accepted 0x8000) rfl
    (by decide) ⟨0, 0, 0⟩ pcInfo_apart
  rw [hmmap]
  exact ⟨hwalk, hloop.trans hwalk⟩

/-- The memory above the first megabyte is among them. -/
theorem mem_pcInfoApi : ⟨0x100000, 0x3f00000, 1⟩ ∈ pcInfoApi.mmap := by
  have hcount : mapEntries pcInfo 0x8000 = 2 := by decide
  have hentry : mapEntryAt pcInfo 0x8000 0 ≠ 0 := by decide
  obtain ⟨st', hcall, -, -⟩ := (firstDriver_steps (by decide)).entry 0 (acceptedFirst 0x8000)
    ⟨0, 0, 0⟩ (firstDriver_accepted 0x8000) (by rw [hcount]; decide) hentry
  have hread : memoryMapInf pcInfo (mapEntryAt pcInfo 0x8000 0) = ⟨0x100000, 0x3f00000, 1⟩ := by
    decide
  have hfirst := @mapWalk_entry _ _ _ (2 ^ 32 - 1) hcall
  obtain ⟨rest, -, hmmap⟩ :=
    Option.map_eq_some_iff.mp (hfirst.symm.trans pcInfo_entries.1)
  rw [← hmmap, ← hread]
  exact List.mem_cons_self

theorem pcInfo_answers :
    BootAnswers smallImage ⟨0, 0, 0⟩ pcInfo 0x8000 multibootMagic pcInfoApi := by
  have hinit : multibootInit pcInfo (.start 0) 0x8000 multibootMagic =
      some (0, acceptedFirst 0x8000) := by
    rw [multibootInit_aligned _ _ (by decide), if_pos rfl, initMultiboot_eq, if_neg (by decide),
      if_neg (by decide)]
    rfl
  obtain ⟨⟨entries, k'⟩, hloop, hentries⟩ := Option.map_eq_some_iff.mp pcInfo_entries.2
  obtain rfl : entries = pcInfoApi.mmap := hentries
  exact ⟨acceptedFirst 0x8000, hinit, 65152, acceptedFirst 0x8000, k', rfl, by decide, rfl, hloop⟩

/-- The boot finds its frames, and leaves one more. -/
theorem pcInfo_boots : ∃ kparams bp old frame,
    kernelEarlyInit smallImage ⟨0, 0, 0⟩ pcInfo 0x8000 multibootMagic =
      some (.returned kparams 0 bp) ∧ bp.early.layout.kernelEndPhysical ≤ 0x400000 ∧
      Booted smallImage pcInfoApi old [] bp frame ∧
      6 ≤ ((Finset.range (32 * ((kmemlowLayout smallImage pcInfoApi).totalBlocks / 32))).filter
        fun b => old.used b = false).card := by
  obtain ⟨kparams, result, bp, e, hboot, hsetup⟩ := pcInfo_answers.returned
  have htotal : (kmemlowLayout smallImage pcInfoApi).totalBlocks = 16288 := by decide
  have hkernel : (kmemlowLayout smallImage pcInfoApi).kernelEndPhysical = 0x111000 := by decide
  have hblocks := kernelBlocks_eq smallImage pcInfoApi
  have hsix : ({300, 301, 302, 303, 304, 305} : Finset ℕ) ⊆ freeScanned smallImage pcInfoApi := by
    intro b hb
    have hb' : 300 ≤ b ∧ b < 306 := by
      simp only [Finset.mem_insert, Finset.mem_singleton] at hb
      omega
    refine Finset.mem_filter.mpr ⟨Finset.mem_range.mpr ?_, ?_, ?_⟩
    · rw [htotal]
      omega
    · omega
    · refine mem_availablePages.mpr ⟨_, mem_pcInfoApi, rfl, MmapData.mem_pages.mpr ⟨?_, ?_⟩⟩
      · change 256 ≤ b
        omega
      · change b < 256 + 16128
        omega
  have hfree := Finset.card_le_card hsix
  rw [← filter_clear_eq smallImage pcInfoApi (.start pcInfo e)] at hfree
  have hok : (kiSetupPaging (.start (kmemlowInitAllocator smallImage pcInfoApi
      (Kmemlow.start pcInfo e)))).1 = 0 :=
    (kiSetupPaging_ok_iff (.init pcInfo e)).mpr (le_trans (by decide) hfree)
  rw [hsetup] at hok
  cases hok
  obtain ⟨hlayout, hbooted⟩ := booted_of_setup hsetup
  have hfits : bp.early.layout.kernelEndPhysical ≤ 0x400000 := by
    rw [hlayout, hkernel]
    decide
  obtain ⟨frame, hbooted⟩ := hbooted hfits
  exact ⟨kparams, bp, _, frame, hboot, hfits, hbooted, hfree⟩

/-- The 64 MiB machine boots, asks for sixteen bytes, stores one and reads it back. -/
theorem booted_memory_pc : ∃ kparams bp st,
    kernelEarlyInit smallImage ⟨0, 0, 0⟩ pcInfo 0x8000 multibootMagic =
      some (.returned kparams 0 bp) ∧
    Traces HeapStep (kernelHeap kparams bp .start)
      [.other (.brk (kparams.kernelHeap + 16)), .store (kparams.kernelHeap + 8) 0x41] st ∧
    BootedMemory kparams bp (kernelHeap kparams bp .start)
      [.other (.brk (kparams.kernelHeap + 16)), .store (kparams.kernelHeap + 8) 0x41] st ∧
    st.seen (kparams.kernelHeap + 8) = some 0x41 := by
  obtain ⟨kparams, bp, old, frame, hboot, hfits, hbooted, hcard⟩ := pcInfo_boots
  have hruns := booted_memory smallImage ⟨0, 0, 0⟩ pcInfo 0x8000 multibootMagic kparams bp hboot
    hfits .start
  obtain rfl := kparams_of_earlyInit hboot
  have hleft := hcard.trans (hbooted.card_scannedFree .start)
  have hend := hbooted.endVirtual
  have hbase : (kparamsOf bp).kernelHeap = bp.kernelEndVirtual := rfl
  have hpage := hbooted.kernelEnd.1
  have hkernel : bp.early.layout.kernelEndPhysical = 0x111000 := by
    rw [hbooted.layout]
    decide
  -- the page of the first sixteen bytes is supplied
  have hsupplied : CallSupplied (kernelHeap (kparamsOf bp) bp .start)
      (.brk ((kparamsOf bp).kernelHeap + 16)) :=
    hbooted.first_growth .start (by omega) (by omega) (by omega)
  obtain ⟨ok, st, hcall, hkept⟩ := (hruns [] _ .nil).calls _ hsupplied
  have hcalled : Traces HeapStep (kernelHeap (kparamsOf bp) bp .start)
      [.other (.brk ((kparamsOf bp).kernelHeap + 16))] st := .single (.call hsupplied hcall)
  have hbrk : st.brk = (kparamsOf bp).kernelHeap + 16 :=
    (hkept.moved (Nat.le_add_right _ _)).2
  obtain ⟨st', hstore⟩ := (hruns _ st hcalled).stores ((kparamsOf bp).kernelHeap + 8) 0x41
    (by omega) (by omega)
  have hrun := hcalled.snoc hstore
  have hmemory := hruns _ st' hrun
  refine ⟨_, bp, st', hboot, hrun, hmemory, hmemory.memory _ _ ?_⟩
  simp [lastStored]

end MissyKernel
