import MissyKernel.MemoryMap
import MissyKernel.Balloc

/-!
# One owner per frame, across both allocators

The boot uses two allocators on one bitmap: `kmemlow` until the kernel starts,
`balloc` from then on. A boot is a run of allocations and releases in the first,
the hand-over of the bitmap, and a run in the second; between the calls of the
first, an owner may write whatever it likes into its frames. The bitmap lies in
the same memory, so that no such write reaches it is part of the invariant.

`Owned` is the invariant: what is live is marked and lies above the kernel, and
everything below the kernel end is marked. Allocation and release keep it in
either allocator because both come down to setting and clearing one bit.

The hand-over is part of the run: the frames that were live in the first allocator stay live
(`held`), and the second one must not give them out. Only live frames are released, as the
callers do; what a release of any other pointer does is the subject of `HarmlessFrees`.
-/

namespace MissyKernel

/-- A boot in progress: the allocator in charge and the frames that are live. -/
inductive FrameState : Type where
  /-- `kmemlow` is in charge -/
  | early (st : Kmemlow) (live : List ℕ)
  /-- `balloc` is in charge; `held` are the frames `kmemlow` handed out before -/
  | kernel (st : Balloc) (held live : List ℕ)

/-- The live frames after a call returned `p`. -/
def grant (p : ℕ) (live : List ℕ) : List ℕ := if p = 0 then live else p :: live

/-- `kmemlow` hands its bitmap and its counters to `balloc` (`memory_init_mmap`
with what `kernel_early_init` put into the parameters). -/
def handOver (st : Kmemlow) (b : Balloc) : Balloc :=
  ballocInitialize b st.word (kmemlowGetTotalBlocks st) (kmemlowGetUsedBlocks st)

/-- The states a boot reaches: any sequence of calls in which only live frames
are released, `kmemlow` first and `balloc` after the hand-over. -/
inductive BootReach (image : KernelImage) (api : MultibootApi) : FrameState → Prop where
  | init (mem : Mem) (errno : ℕ) :
    BootReach image api (.early (kmemlowInitAllocator image api (Kmemlow.start mem errno)) [])
  | earlyAlloc {st : Kmemlow} {live : List ℕ} (h : BootReach image api (.early st live)) :
    BootReach image api (.early (kmemlowAlloc st).2 (grant (kmemlowAlloc st).1 live))
  | earlyFree {st : Kmemlow} {live : List ℕ} {p : ℕ} (h : BootReach image api (.early st live))
    (hp : p ∈ live) : BootReach image api (.early (kmemlowFree st p) (live.erase p))
  | earlyWrite {st : Kmemlow} {live : List ℕ} {p : ℕ} {mem : Mem}
    (h : BootReach image api (.early st live)) (hp : p ∈ live)
    (hmem : ∀ a, a < p ∨ p + 4096 ≤ a → mem a = st.mem a) :
    BootReach image api (.early (st.setMem mem) live)
  | handOver {st : Kmemlow} {live : List ℕ} (b : Balloc)
    (h : BootReach image api (.early st live)) :
    BootReach image api (.kernel (handOver st b) live [])
  | kernelAlloc {st : Balloc} {held live : List ℕ}
    (h : BootReach image api (.kernel st held live)) :
    BootReach image api
      (.kernel (ballocAllocateBlock st).2 held (grant (ballocAllocateBlock st).1 live))
  | kernelFree {st : Balloc} {held live : List ℕ} {p : ℕ}
    (h : BootReach image api (.kernel st held live)) (hp : p ∈ live) :
    BootReach image api (.kernel (ballocDeallocateBlock st p) held (live.erase p))

/-- What a returned frame has to satisfy while `live` are the live frames. -/
structure FreshFrame (image : KernelImage) (api : MultibootApi) (live : List ℕ) (p : ℕ) :
    Prop where
  /-- it is page aligned -/
  aligned : p % 4096 = 0
  /-- it lies below the end of memory -/
  below : p < (kmemlowLayout image api).totalBlocks * 4096
  /-- it lies outside the first megabyte -/
  megabyte : 0x100000 ≤ p
  /-- it lies outside the kernel image and the bitmap -/
  kernel : ¬ (0x100000 ≤ p ∧ p < (kmemlowLayout image api).kernelEndPhysical)
  /-- nobody else owns it -/
  unowned : p ∉ live

/-- The invariant: blocks below the kernel end are marked; live frames are
distinct, marked, aligned, and between the kernel end and the end of memory. -/
structure Owned (image : KernelImage) (api : MultibootApi) (used : ℕ → Bool)
    (live : List ℕ) : Prop where
  /-- the reserved blocks are marked -/
  reserved : ∀ b < kernelBlocks image api, b < (kmemlowLayout image api).totalBlocks →
    used b = true
  /-- no frame is live twice -/
  nodup : live.Nodup
  /-- live frames are whole pages of managed memory above the kernel -/
  page : ∀ p ∈ live, p % 4096 = 0 ∧ kernelBlocks image api ≤ p / 4096 ∧
    p / 4096 < (kmemlowLayout image api).totalBlocks
  /-- and they are marked -/
  marked : ∀ p ∈ live, used (p / 4096) = true

section Step

variable {image : KernelImage} {api : MultibootApi} {used used' : ℕ → Bool} {live : List ℕ}

/-- A clear block is a fresh frame. -/
theorem Owned.freshFrame (h : Owned image api used live) {b : ℕ}
    (hb : b < (kmemlowLayout image api).totalBlocks) (hclear : used b = false) :
    FreshFrame image api live (b * 4096 % 2 ^ 32) := by
  have htotal := kmemlowLayout_totalBlocks_lt image api
  have hkend := kernelBlocks_eq image api
  obtain ⟨hlow, -⟩ := kernelBlocks_bounds image api
  have hge : kernelBlocks image api ≤ b := by
    by_contra hlt
    rw [h.reserved b (by omega) hb] at hclear
    cases hclear
  rw [Nat.mod_eq_of_lt (by omega)]
  refine ⟨by omega, by omega, by omega, by omega, fun hmem => ?_⟩
  have hset := h.marked _ hmem
  rw [show b * 4096 / 4096 = b by omega, hclear] at hset
  cases hset

/-- Only the bits of managed blocks matter. -/
theorem Owned.congr (h : Owned image api used live)
    (hused : ∀ b < (kmemlowLayout image api).totalBlocks, used' b = used b) :
    Owned image api used' live := by
  refine ⟨fun b hb hlt => ?_, h.nodup, h.page, fun p hp => ?_⟩
  · rw [hused b hlt]
    exact h.reserved b hb hlt
  · rw [hused _ (h.page p hp).2.2]
    exact h.marked p hp

/-- Marking a clear block and giving it away keeps the invariant. -/
theorem Owned.alloc (h : Owned image api used live) {b : ℕ}
    (hb : b < (kmemlowLayout image api).totalBlocks) (hclear : used b = false)
    (hused : ∀ c < (kmemlowLayout image api).totalBlocks,
      used' c = (used c || decide (c = b))) :
    Owned image api used' (grant (b * 4096 % 2 ^ 32) live) := by
  have htotal := kmemlowLayout_totalBlocks_lt image api
  have hfresh := h.freshFrame hb hclear
  obtain ⟨hlow, -⟩ := kernelBlocks_bounds image api
  have hkend := kernelBlocks_eq image api
  have hge := hfresh.megabyte
  have hker := hfresh.kernel
  rw [Nat.mod_eq_of_lt (by omega)] at hfresh hge hker ⊢
  rw [grant, if_neg (by omega)]
  have hdiv : b * 4096 / 4096 = b := by omega
  refine ⟨fun c hc hlt => ?_, List.nodup_cons.mpr ⟨hfresh.unowned, h.nodup⟩, fun p hp => ?_,
    fun p hp => ?_⟩
  · rw [hused c hlt, h.reserved c hc hlt, Bool.true_or]
  · rcases List.mem_cons.mp hp with rfl | hp
    · exact ⟨by omega, by omega, by omega⟩
    · exact h.page p hp
  · rcases List.mem_cons.mp hp with rfl | hp
    · rw [hdiv, hused b hb]
      simp
    · rw [hused _ (h.page p hp).2.2, h.marked p hp, Bool.true_or]

/-- Clearing the bit of a frame that is given back keeps the invariant. -/
theorem Owned.free (pre : List ℕ) (h : Owned image api used (pre ++ live)) {p : ℕ}
    (hp : p ∈ live)
    (hused : ∀ c < (kmemlowLayout image api).totalBlocks,
      used' c = (used c && decide (c ≠ p / 4096))) :
    Owned image api used' (pre ++ live.erase p) := by
  have hmem : p ∈ pre ++ live := List.mem_append_right _ hp
  obtain ⟨halign, hge, hlt⟩ := h.page p hmem
  have hnotpre : p ∉ pre := fun hpre =>
    (List.nodup_append.mp h.nodup).2.2 p hpre p hp rfl
  have herase : pre ++ live.erase p = (pre ++ live).erase p :=
    (List.erase_append_right live hnotpre).symm
  rw [herase]
  have hsub : ∀ q ∈ (pre ++ live).erase p, q ∈ pre ++ live ∧ q ≠ p := fun q hq =>
    ⟨List.mem_of_mem_erase hq, ((h.nodup.mem_erase_iff).mp hq).1⟩
  refine ⟨fun c hc hct => ?_, h.nodup.erase p, fun q hq => h.page q (hsub q hq).1, fun q hq => ?_⟩
  · rw [hused c hct, h.reserved c hc hct]
    simp only [Bool.true_and, decide_eq_true_eq]
    omega
  · obtain ⟨hq, hne⟩ := hsub q hq
    obtain ⟨hqa, -, hqt⟩ := h.page q hq
    rw [hused _ hqt, h.marked q hq]
    simp only [Bool.true_and, decide_eq_true_eq]
    omega

end Step

/-! ## The invariant over a boot -/

/-- `Owned` for the allocator in charge. -/
def FrameState.Inv (image : KernelImage) (api : MultibootApi) : FrameState → Prop
  | .early st live => st.layout = kmemlowLayout image api ∧ Owned image api st.used live
  | .kernel st held live => st.totalBlocks = (kmemlowLayout image api).totalBlocks ∧
      Owned image api st.used (held ++ live)

variable {image : KernelImage} {api : MultibootApi}

/-- The words of the bitmap end below the kernel end. -/
theorem bitmap_below_kernelEnd (image : KernelImage) (api : MultibootApi) {i : ℕ}
    (hi : i < (kmemlowLayout image api).bitmapSize) :
    (kmemlowLayout image api).mbitmapPhysical + 4 * i + 4 ≤
      (kmemlowLayout image api).kernelEndPhysical := by
  have := kmemlowLayout_kernelEndPhysical image api
  omega

/-- The bits of the bitmap depend only on memory below the kernel end. -/
theorem used_of_agree {st : Kmemlow} {mem : Mem} {b : ℕ}
    (hl : st.layout = kmemlowLayout image api)
    (hmem : ∀ a < (kmemlowLayout image api).kernelEndPhysical, mem a = st.mem a)
    (hb : b < 32 * (kmemlowLayout image api).bitmapSize) :
    (st.setMem mem).used b = st.used b := by
  have hsize := kmemlowLayout_bitmapSize image api
  have htotal := kmemlowLayout_totalBlocks_lt image api
  have hword := bitmap_below_kernelEnd image api
    (show b / 32 < (kmemlowLayout image api).bitmapSize by omega)
  have haddr : st.wordAddr (b / 32) = (kmemlowLayout image api).mbitmapPhysical + 4 * (b / 32) := by
    rw [Kmemlow.wordAddr_eq (by rw [hl]; exact mbitmapPhysical_lt _ _) (by omega), hl]
  refine bitAt_congr (Mem.read32_congr fun i hi => hmem _ ?_)
  change st.wordAddr (b / 32) + i < _
  omega

/-- After the initialisation nothing is live. -/
theorem owned_kmemlowInitAllocator (st : Kmemlow) :
    Owned image api (kmemlowInitAllocator image api st).used [] := by
  have hsize := kmemlowLayout_bitmapSize image api
  refine ⟨fun b hb hlt => ?_, List.nodup_nil, ?_, ?_⟩
  · by_contra hclear
    rw [Bool.not_eq_true, used_kmemlowInitAllocator (by omega)] at hclear
    omega
  · exact fun p hp => absurd hp List.not_mem_nil
  · exact fun p hp => absurd hp List.not_mem_nil

section Early

variable {st : Kmemlow} {live : List ℕ}

theorem Owned.earlyAlloc (hown : Owned image api st.used live)
    (hl : st.layout = kmemlowLayout image api) :
    Owned image api (kmemlowAlloc st).2.used (grant (kmemlowAlloc st).1 live) := by
  have htotal := kmemlowLayout_totalBlocks_lt image api
  have hphys : st.layout.mbitmapPhysical < 2 ^ 30 := by
    rw [hl]
    exact mbitmapPhysical_lt image api
  obtain ⟨b, ⟨hfirst, -⟩, hcall⟩ | ⟨-, e, hcall⟩ := st.alloc_cases
  · -- a frame is taken
    have hb : b < (kmemlowLayout image api).totalBlocks := by
      have hlt := hfirst.lt
      rw [hl] at hlt
      omega
    rw [hcall]
    exact hown.alloc hb hfirst.clear fun c hc =>
      Kmemlow.used_allocate hphys (by omega) (by omega)
  · rw [hcall]
    exact hown

theorem Owned.earlyFree (hown : Owned image api st.used live)
    (hl : st.layout = kmemlowLayout image api) {p : ℕ} (hp : p ∈ live) :
    Owned image api (kmemlowFree st p).used (live.erase p) := by
  have htotal := kmemlowLayout_totalBlocks_lt image api
  have hphys : st.layout.mbitmapPhysical < 2 ^ 30 := by
    rw [hl]
    exact mbitmapPhysical_lt image api
  have hlt : p / 4096 < st.layout.totalBlocks := by
    rw [hl]
    exact (hown.page p hp).2.2
  refine Owned.free [] hown hp fun c hc => ?_
  rw [Kmemlow.used_free hphys (by rw [hl]; omega) p (by omega)]
  simp [hlt]

end Early

section Kernel

variable {st : Balloc} {held live : List ℕ}

theorem Owned.kernelAlloc (hown : Owned image api st.used (held ++ live))
    (hl : st.totalBlocks = (kmemlowLayout image api).totalBlocks) :
    Owned image api (ballocAllocateBlock st).2.used
      (held ++ grant (ballocAllocateBlock st).1 live) := by
  obtain ⟨b, ⟨hpos, hfirst⟩, hcall⟩ | ⟨-, e, hcall⟩ := st.allocateBlock_cases
  · -- a frame is taken
    have hb : b < (kmemlowLayout image api).totalBlocks := by
      have hlt := hfirst.lt
      omega
    have htotal := kmemlowLayout_totalBlocks_lt image api
    have hnew := hown.alloc hb hfirst.clear fun c _ => st.used_allocate b c
    rw [hcall]
    rw [grant, if_neg (by omega)] at hnew ⊢
    refine ⟨hnew.reserved, ?_, fun p hp => hnew.page p ?_, fun p hp => hnew.marked p ?_⟩
    · exact List.nodup_middle.mpr hnew.nodup
    · exact List.perm_middle.mem_iff.mp hp
    · exact List.perm_middle.mem_iff.mp hp
  · rw [hcall]
    exact hown

theorem Owned.kernelFree (hown : Owned image api st.used (held ++ live))
    (hl : st.totalBlocks = (kmemlowLayout image api).totalBlocks) {p : ℕ} (hp : p ∈ live) :
    Owned image api (ballocDeallocateBlock st p).used (held ++ live.erase p) := by
  have hlt : p / 4096 < st.totalBlocks := by
    rw [hl]
    exact (hown.page p (List.mem_append_right _ hp)).2.2
  refine Owned.free held hown hp fun c hc => ?_
  rw [st.used_deallocateBlock p c]
  simp [hlt]

end Kernel

/-- The invariant holds throughout a boot. -/
theorem FrameState.inv_of_reach {s : FrameState} (h : BootReach image api s) :
    s.Inv image api := by
  induction h with
  | init mem errno =>
    exact ⟨kmemlowInitAllocator_layout, owned_kmemlowInitAllocator (Kmemlow.start mem errno)⟩
  | @earlyAlloc st live _ ih =>
    obtain ⟨hl, hown⟩ := ih
    exact ⟨(Kmemlow.alloc_layout st).trans hl, hown.earlyAlloc hl⟩
  | @earlyFree st live p _ hp ih =>
    obtain ⟨hl, hown⟩ := ih
    exact ⟨(Kmemlow.free_layout st p).trans hl, hown.earlyFree hl hp⟩
  | @earlyWrite st live p mem _ hp hmem ih =>
    obtain ⟨hl, hown⟩ := ih
    have hkend := kernelBlocks_eq image api
    have hpage := hown.page p hp
    exact ⟨hl, hown.congr fun b hb =>
      used_of_agree hl (fun a ha => hmem a (.inl (by omega))) (lt_bitmapBits hb)⟩
  | @handOver st live b _ ih =>
    obtain ⟨hl, hown⟩ := ih
    refine ⟨congrArg KmemlowLayout.totalBlocks hl, ?_⟩
    rw [List.append_nil]
    exact hown
  | @kernelAlloc st held live _ ih =>
    obtain ⟨hl, hown⟩ := ih
    exact ⟨st.allocateBlock_totalBlocks.trans hl, hown.kernelAlloc hl⟩
  | @kernelFree st held live p _ hp ih =>
    obtain ⟨hl, hown⟩ := ih
    exact ⟨(st.deallocateBlock_totalBlocks p).trans hl, hown.kernelFree hl hp⟩

/-- While a scanned block is clear, `kmemlow_alloc` returns a frame. -/
theorem Owned.kmemlowAlloc_ne_zero {st : Kmemlow} {live : List ℕ}
    (hl : st.layout = kmemlowLayout image api) (hown : Owned image api st.used live) {b : ℕ}
    (hb : b < 32 * (st.layout.totalBlocks / 32)) (hclear : st.used b = false) :
    (kmemlowAlloc st).1 ≠ 0 := by
  obtain ⟨hlow, -⟩ := kernelBlocks_bounds image api
  obtain ⟨c, ⟨hfirst, -⟩, hcall⟩ | ⟨hnone, -⟩ := st.alloc_cases
  · have hlt := hfirst.lt
    rw [hl] at hlt
    have hfresh := hown.freshFrame (show c < _ by omega) hfirst.clear
    have := hfresh.megabyte
    rw [hcall]
    exact fun h => by omega
  · rcases hz : firstZero st.word (st.layout.totalBlocks / 32) with _ | c
    · have hset : st.used b = true := firstZero_eq_none.mp hz b hb
      rw [hclear] at hset
      cases hset
    · have hfirst := firstZero_eq_some.mp hz
      refine absurd ⟨hfirst, ?_⟩ (hnone c)
      rintro ⟨rfl, -⟩
      have hlt := hfirst.lt
      have hset := hown.reserved 0 (by omega) (by rw [← hl]; omega)
      rw [Kmemlow.used, hfirst.clear] at hset
      cases hset

/-- It is the lowest frame that is free behind the kernel. -/
theorem Owned.kmemlowAlloc_eq {st : Kmemlow} {live : List ℕ}
    (hl : st.layout = kmemlowLayout image api) (hown : Owned image api st.used live) {b : ℕ}
    (hb : b < 32 * (st.layout.totalBlocks / 32)) (hclear : st.used b = false)
    (hlowest : ∀ c, kernelBlocks image api ≤ c → c < b → st.used c = true) :
    kmemlowAlloc st = (b * 4096 % 2 ^ 32, st.allocate b) := by
  obtain ⟨c, ⟨hfirst, -⟩, hcall⟩ | ⟨-, e, hcall⟩ := st.alloc_cases
  · have hc : st.used c = false := hfirst.clear
    obtain rfl : c = b := by
      rcases Nat.lt_trichotomy c b with hlt | heq | hgt
      · have hset : st.used c = true := by
          rcases Nat.lt_or_ge c (kernelBlocks image api) with hin | hbehind
          · exact hown.reserved c hin (by rw [← hl]; omega)
          · exact hlowest c hbehind hlt
        rw [hset] at hc
        cases hc
      · exact heq
      · have hset : st.used b = true := hfirst.lowest b hgt
        rw [hset] at hclear
        cases hclear
    exact hcall
  · exact absurd (congrArg Prod.fst hcall) (Owned.kmemlowAlloc_ne_zero hl hown hb hclear)

theorem Owned.ballocAllocateBlock_eq {st : Balloc} {live : List ℕ}
    (hl : st.totalBlocks = (kmemlowLayout image api).totalBlocks)
    (hown : Owned image api st.used live) {b : ℕ}
    (hb : b < 32 * (st.totalBlocks / 32)) (hclear : st.used b = false)
    (hlowest : ∀ c, kernelBlocks image api ≤ c → c < b → st.used c = true) :
    ballocAllocateBlock st = (b * 4096 % 2 ^ 32, st.allocate b) := by
  refine st.allocateBlock_of_nextFree ⟨?_, hb, hclear, fun c hc => ?_⟩
  · obtain ⟨hlow, -⟩ := kernelBlocks_bounds image api
    by_contra hzero
    rw [hown.reserved b (by omega) (by omega)] at hclear
    cases hclear
  · rcases Nat.lt_or_ge c (kernelBlocks image api) with hin | hbehind
    · exact hown.reserved c hin (by omega)
    · exact hlowest c hbehind hc

/-- **No frame has two owners.** In every state of every boot, a frame that either allocator
returns is a whole page of managed memory outside the first megabyte and the kernel, and it is none
of the frames that are live in either allocator.

By the invariant `Owned` along the run: what is live is marked, and what is returned was clear a
moment before. The writes that owners make into their frames cannot reach the bitmap, because live
frames lie above the kernel's end and the bitmap below it. -/
theorem single_owner (image : KernelImage) (api : MultibootApi) :
    (∀ (st : Kmemlow) (live : List ℕ), BootReach image api (.early st live) →
      (kmemlowAlloc st).1 ≠ 0 → FreshFrame image api live (kmemlowAlloc st).1) ∧
    (∀ (st : Balloc) (held live : List ℕ), BootReach image api (.kernel st held live) →
      (ballocAllocateBlock st).1 ≠ 0 →
        FreshFrame image api (held ++ live) (ballocAllocateBlock st).1) := by
  constructor
  · intro st live hreach hne
    obtain ⟨hl, hown⟩ := FrameState.inv_of_reach hreach
    obtain ⟨b, ⟨hfirst, -⟩, hcall⟩ | ⟨-, e, hcall⟩ := st.alloc_cases
    · rw [hcall]
      have hlt := hfirst.lt
      rw [hl] at hlt
      exact hown.freshFrame (by omega) hfirst.clear
    · rw [hcall] at hne
      exact absurd rfl hne
  · intro st held live hreach hne
    obtain ⟨hl, hown⟩ := FrameState.inv_of_reach hreach
    obtain ⟨b, ⟨-, hfirst⟩, hcall⟩ | ⟨-, e, hcall⟩ := st.allocateBlock_cases
    · rw [hcall]
      have hlt := hfirst.lt
      exact hown.freshFrame (by omega) hfirst.clear
    · rw [hcall] at hne
      exact absurd rfl hne

/-- The 64 MiB machine after the initialisation. -/
def pcBoot : Kmemlow := kmemlowInitAllocator smallImage pcApi (Kmemlow.start (fun _ => 0) 0)

theorem pcBoot_reach : BootReach smallImage pcApi (.early pcBoot []) := .init _ _

/-- It leaves the memory above the kernel clear. -/
theorem pcBoot_clear {b : ℕ} (hb : 273 ≤ b) (hb' : b < 16000) : pcBoot.used b = false := by
  have hsize : (kmemlowLayout smallImage pcApi).bitmapSize = 509 := by decide
  have hkernel : kernelBlocks smallImage pcApi = 273 := by decide
  refine (used_kmemlowInitAllocator (by omega)).mpr ⟨by omega, ?_⟩
  refine mem_availablePages.mpr ⟨⟨0x100000, 64512 * 1024, 1⟩, by decide, rfl, ?_⟩
  refine MmapData.mem_pages.mpr ⟨?_, ?_⟩
  · change 256 ≤ b
    omega
  · change b < 256 + 16128
    omega

/-- On the 64 MiB machine `kmemlow` gives out two frames and gets the first one back; it gives
that out again while the second one is live. The kernel takes over with the second frame held,
takes the first one, and the third one is fresh. -/
theorem single_owner_pc : ∃ (early : Kmemlow) (kernel : Balloc),
    BootReach smallImage pcApi (.early early [0x112000]) ∧
      (kmemlowAlloc early).1 = 0x111000 ∧ FreshFrame smallImage pcApi [0x112000] 0x111000 ∧
      BootReach smallImage pcApi (.kernel kernel [0x112000] [0x111000]) ∧
      (ballocAllocateBlock kernel).1 = 0x113000 ∧
      FreshFrame smallImage pcApi ([0x112000] ++ [0x111000]) 0x113000 := by
  have htotal : (kmemlowLayout smallImage pcApi).totalBlocks = 16288 := by decide
  have hkernel : kernelBlocks smallImage pcApi = 273 := by decide
  have hphys := mbitmapPhysical_lt smallImage pcApi
  -- two frames are taken
  have hreach := pcBoot_reach
  obtain ⟨hl, hown⟩ := FrameState.inv_of_reach hreach
  have hcall := Owned.kmemlowAlloc_eq hl hown (b := 273) (by rw [hl, htotal]; decide)
    (pcBoot_clear (by decide) (by decide)) (by omega)
  have hreach₁ := hreach.earlyAlloc
  rw [hcall] at hreach₁
  dsimp only at hreach₁
  have hused₁ : ∀ b, 273 ≤ b → b < 16000 →
      (pcBoot.allocate 273).used b = decide (b = 273) := fun b hb hb' => by
    rw [Kmemlow.used_allocate (by rw [hl]; exact hphys) (by decide) (by omega),
      pcBoot_clear hb hb', Bool.false_or]
  obtain ⟨hl₁, hown₁⟩ := FrameState.inv_of_reach hreach₁
  have hcall₁ := Owned.kmemlowAlloc_eq hl₁ hown₁ (b := 274) (by rw [hl₁, htotal]; decide)
    (hused₁ 274 (by decide) (by decide)) fun c hc hc' => by
      rw [hused₁ c (by omega) (by omega), decide_eq_true_eq]
      omega
  have hreach₂ := hreach₁.earlyAlloc
  rw [hcall₁] at hreach₂
  dsimp only at hreach₂
  have hused₂ : ∀ b, 273 ≤ b → b < 16000 →
      ((pcBoot.allocate 273).allocate 274).used b = decide (b = 273 ∨ b = 274) := by
    intro b hb hb'
    rw [Kmemlow.used_allocate (by rw [hl₁]; exact hphys) (by decide) (by omega),
      hused₁ b hb hb', Bool.decide_or]
  obtain ⟨hl₂, -⟩ := FrameState.inv_of_reach hreach₂
  -- the first one is given back
  have hreach₃ := hreach₂.earlyFree (p := 0x111000) (by decide)
  obtain ⟨hl₃, hown₃⟩ := FrameState.inv_of_reach hreach₃
  have hlive : ([0x112000] : List ℕ) =
      (grant (274 * 4096 % 2 ^ 32) (grant (273 * 4096 % 2 ^ 32) [])).erase 0x111000 := by decide
  rw [← hlive] at hreach₃ hown₃
  have hused₃ : ∀ b, 273 ≤ b → b < 16000 →
      (kmemlowFree ((pcBoot.allocate 273).allocate 274) 0x111000).used b = decide (b = 274) := by
    intro b hb hb'
    rw [Kmemlow.used_free (by rw [hl₂]; exact hphys) (by rw [hl₂, htotal]; decide) 0x111000
      (by omega), hused₂ b hb hb', hl₂, htotal]
    by_cases h273 : b = 273
    · subst h273
      decide
    · simp [h273]
  have hcall₃ := Owned.kmemlowAlloc_eq hl₃ hown₃ (b := 273) (by rw [hl₃, htotal]; decide)
    (hused₃ 273 (by decide) (by decide)) (by omega)
  -- the kernel takes over with the second one held
  have hreach₄ := hreach₃.handOver Balloc.start
  obtain ⟨hl₄, hown₄⟩ := FrameState.inv_of_reach hreach₄
  have hcall₄ := Owned.ballocAllocateBlock_eq hl₄ hown₄ (b := 273) (by rw [hl₄, htotal]; decide)
    (hused₃ 273 (by decide) (by decide)) (by omega)
  have hreach₅ := hreach₄.kernelAlloc
  rw [hcall₄] at hreach₅
  dsimp only at hreach₅
  obtain ⟨hl₅, hown₅⟩ := FrameState.inv_of_reach hreach₅
  have hused₅ : ∀ b, 273 ≤ b → b < 16000 → Balloc.used (Balloc.allocate (handOver
      (kmemlowFree ((pcBoot.allocate 273).allocate 274) 0x111000) Balloc.start) 273) b =
        decide (b = 274 ∨ b = 273) := by
    intro b hb hb'
    rw [Balloc.used_allocate, Bool.decide_or]
    exact congrArg (· || decide (b = 273)) (hused₃ b hb hb')
  have hcall₅ := Owned.ballocAllocateBlock_eq hl₅ hown₅ (b := 275) (by rw [hl₅, htotal]; decide)
    (hused₅ 275 (by decide) (by decide)) fun c hc hc' => by
      rw [hused₅ c (by omega) (by omega), decide_eq_true_eq]
      omega
  have hearly := (single_owner smallImage pcApi).1 _ _ hreach₃
  have hkept := (single_owner smallImage pcApi).2 _ _ _ hreach₅
  rw [hcall₃] at hearly
  rw [hcall₅] at hkept
  exact ⟨_, _, hreach₃, congrArg Prod.fst hcall₃, hearly (by decide), hreach₅,
    congrArg Prod.fst hcall₅, hkept (by decide)⟩

end MissyKernel
