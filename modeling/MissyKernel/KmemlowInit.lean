import MissyKernel.Kmemlow

/-!
# What the initialisation of the early allocator leaves

`kmemlow_init_allocator` is three passes over the bitmap: mark everything, clear
the page range of every available map entry, mark everything below the kernel
end. Each pass is a fold of one-block steps (`kmemlowInitAllocator_eq`), and the
three things a fold does (to the bits, to `used_blocks`, to the ghost log of
accesses) are read off the list of blocks it runs over.

Everything that is said later about the initialisation starts from three equations:
* `used_kmemlowInitAllocator`: which blocks are clear;
* `usedBlocks_kmemlowInitAllocator`: the counter, which every pass moves by one for every block
  it comes to, whether the bit of the block changed or not;
* `mem_touched_kmemlowInitAllocator`: the words of the bitmap that were accessed.
-/

namespace MissyKernel

/-- The frames `free_region` is asked to free for a map entry: base and length
truncated to 32 bits, both rounded down to pages. -/
def MmapData.pages (e : MmapData) : List ℕ :=
  List.range' (e.base.toNat % 2 ^ 32 / 4096) (e.length.toNat % 2 ^ 32 / 4096)

/-- The frames of all available entries, in the order the loop frees them. -/
def availablePages (mmap : List MmapData) : List ℕ :=
  (mmap.filter fun e => e.type = 1).flatMap MmapData.pages

theorem MmapData.mem_pages {e : MmapData} {b : ℕ} :
    b ∈ e.pages ↔ e.base.toNat % 2 ^ 32 / 4096 ≤ b ∧
      b < e.base.toNat % 2 ^ 32 / 4096 + e.length.toNat % 2 ^ 32 / 4096 :=
  List.mem_range'_1

theorem mem_availablePages {mmap : List MmapData} {b : ℕ} :
    b ∈ availablePages mmap ↔ ∃ e ∈ mmap, e.type = 1 ∧ b ∈ e.pages := by
  simp only [availablePages, List.mem_flatMap, List.mem_filter, decide_eq_true_eq, and_assoc]

/-- Truncated page numbers are far from wrapping. -/
theorem availablePages_lt {mmap : List MmapData} {b : ℕ} (hb : b ∈ availablePages mmap) :
    b < 2 ^ 21 := by
  obtain ⟨e, -, -, he⟩ := mem_availablePages.mp hb
  obtain ⟨-, hlt⟩ := MmapData.mem_pages.mp he
  omega

namespace Kmemlow

/-! ## The loops as folds -/

theorem regionLoop_eq_foldl (step : Kmemlow → ℕ → Kmemlow) :
    ∀ (n align : ℕ) (st : Kmemlow), align + n < 2 ^ 32 →
      regionLoop step n align st = (List.range' align n).foldl step st
  | 0, _, _, _ => rfl
  | n + 1, align, st, h => by
    rw [regionLoop, Nat.mod_eq_of_lt (by omega), List.range'_succ, List.foldl_cons,
      regionLoop_eq_foldl step n (align + 1) _ (by omega)]

theorem freeAvailable_eq_foldl (mmap : List MmapData) :
    ∀ st : Kmemlow, st.freeAvailable mmap = (availablePages mmap).foldl freeStep st := by
  induction mmap with
  | nil => exact fun _ => rfl
  | cons e mmap ih =>
    intro st
    rw [freeAvailable, List.foldl_cons]
    by_cases he : e.type = 1
    · rw [if_pos he, freeRegion, regionLoop_eq_foldl _ _ _ _ (by omega)]
      refine (ih _).trans ?_
      rw [availablePages, availablePages, List.filter_cons_of_pos (by simpa using he),
        List.flatMap_cons, List.foldl_append]
      rfl
    · rw [if_neg he]
      refine (ih _).trans ?_
      rw [availablePages, availablePages, List.filter_cons_of_neg (by simpa using he)]

variable {st : Kmemlow} {i c : ℕ}

/-! ## What a fold does -/

@[simp] theorem freeStep_layout (st : Kmemlow) (b : ℕ) : (st.freeStep b).layout = st.layout := rfl

@[simp] theorem reserveStep_layout (st : Kmemlow) (b : ℕ) :
    (st.reserveStep b).layout = st.layout := rfl

/-- A fold of steps that keep the layout keeps the layout. -/
theorem foldl_layout {step : Kmemlow → ℕ → Kmemlow} (h : ∀ st b, (step st b).layout = st.layout) :
    ∀ (l : List ℕ) (st : Kmemlow), (l.foldl step st).layout = st.layout
  | [], _ => rfl
  | b :: l, st => by rw [List.foldl_cons, foldl_layout h l, h]

theorem used_foldl_freeStep :
    ∀ {l : List ℕ} {st : Kmemlow}, st.layout.mbitmapPhysical < 2 ^ 30 → (∀ b ∈ l, b < 2 ^ 32) →
      c < 2 ^ 32 → ((l.foldl freeStep st).used c = true ↔ st.used c = true ∧ c ∉ l)
  | [], _, _, _, _ => by simp
  | b :: l, st, hp, hl, hc => by
    have hstep : (st.freeStep b).used c = (st.used c && decide (c ≠ b)) := by
      rw [used_congr (st.deallocate b) (st.freeStep b) rfl rfl]
      exact used_deallocate hp (hl b List.mem_cons_self) hc
    rw [List.foldl_cons, used_foldl_freeStep (by simpa using hp)
      (fun x hx => hl x (List.mem_cons_of_mem _ hx)) hc, hstep]
    simp [and_assoc]

theorem used_foldl_reserveStep :
    ∀ {l : List ℕ} {st : Kmemlow}, st.layout.mbitmapPhysical < 2 ^ 30 → (∀ b ∈ l, b < 2 ^ 32) →
      c < 2 ^ 32 → ((l.foldl reserveStep st).used c = true ↔ st.used c = true ∨ c ∈ l)
  | [], _, _, _, _ => by simp
  | b :: l, st, hp, hl, hc => by
    have hstep : (st.reserveStep b).used c = (st.used c || decide (c = b)) := by
      rw [used_congr (st.allocate b) (st.reserveStep b) rfl rfl]
      exact used_allocate hp (hl b List.mem_cons_self) hc
    rw [List.foldl_cons, used_foldl_reserveStep (by simpa using hp)
      (fun x hx => hl x (List.mem_cons_of_mem _ hx)) hc, hstep]
    simp [or_assoc]

/-- Each step accesses the word of its block. -/
theorem mem_touched_foldl {step : Kmemlow → ℕ → Kmemlow}
    (h : ∀ st b, (step st b).touched = b / 32 :: st.touched) :
    ∀ {l : List ℕ} {st : Kmemlow},
      i ∈ (l.foldl step st).touched ↔ i ∈ st.touched ∨ ∃ b ∈ l, i = b / 32
  | [], _ => by simp
  | b :: l, st => by
    rw [List.foldl_cons, mem_touched_foldl h, h, List.mem_cons]
    simp only [List.mem_cons, exists_eq_or_imp]
    tauto

/-- Every step of the freeing pass lowers the counter, whatever the bit was. -/
theorem usedBlocks_foldl_freeStep :
    ∀ (l : List ℕ) (st : Kmemlow),
      (l.foldl freeStep st).usedBlocks + l.length ≡ st.usedBlocks [MOD 2 ^ 32]
  | [], _ => Nat.ModEq.refl _
  | b :: l, st => by
    have hstep : (st.freeStep b).usedBlocks = (st.usedBlocks + 2 ^ 32 - 1) % 2 ^ 32 := rfl
    have ih := usedBlocks_foldl_freeStep l (st.freeStep b)
    rw [List.foldl_cons, List.length_cons]
    rw [hstep] at ih
    unfold Nat.ModEq at ih ⊢
    omega

/-- Every step of the reserving pass raises the counter, whatever the bit was. -/
theorem usedBlocks_foldl_reserveStep :
    ∀ (l : List ℕ) (st : Kmemlow),
      (l.foldl reserveStep st).usedBlocks ≡ st.usedBlocks + l.length [MOD 2 ^ 32]
  | [], _ => Nat.ModEq.refl _
  | b :: l, st => by
    have hstep : (st.reserveStep b).usedBlocks = (st.usedBlocks + 1) % 2 ^ 32 := rfl
    have ih := usedBlocks_foldl_reserveStep l (st.reserveStep b)
    rw [List.foldl_cons, List.length_cons]
    rw [hstep] at ih
    unfold Nat.ModEq at ih ⊢
    omega

/-! ## The fill -/

@[simp] theorem fillBitmap_layout : ∀ (st : Kmemlow) (n : ℕ), (st.fillBitmap n).layout = st.layout
  | _, 0 => rfl
  | st, n + 1 => fillBitmap_layout st n

@[simp] theorem fillBitmap_usedBlocks :
    ∀ (st : Kmemlow) (n : ℕ), (st.fillBitmap n).usedBlocks = st.usedBlocks
  | _, 0 => rfl
  | st, n + 1 => fillBitmap_usedBlocks st n

@[simp] theorem fillBitmap_touched :
    ∀ (st : Kmemlow) (n : ℕ), (st.fillBitmap n).touched = st.touched
  | _, 0 => rfl
  | st, n + 1 => fillBitmap_touched st n

@[simp] theorem fillBitmap_kinitErrno :
    ∀ (st : Kmemlow) (n : ℕ), (st.fillBitmap n).kinitErrno = st.kinitErrno
  | _, 0 => rfl
  | st, n + 1 => fillBitmap_kinitErrno st n

theorem word_fillBitmap (hp : st.layout.mbitmapPhysical < 2 ^ 30) :
    ∀ {n : ℕ}, n ≤ 2 ^ 27 → i < n → (st.fillBitmap n).word i = 0xffffffff
  | 0, _, hi => absurd hi (Nat.not_lt_zero i)
  | n + 1, hn, hi => by
    rw [fillBitmap, word_setWord (by simpa using hp) (by omega) (by omega)]
    by_cases hin : i = n
    · rw [if_pos hin]
      rfl
    · rw [if_neg hin]
      exact word_fillBitmap hp (by omega) (by omega)

/-- The fill writes to the bitmap only. -/
theorem fillBitmap_mem_outside {a : ℕ} (hp : st.layout.mbitmapPhysical < 2 ^ 30) :
    ∀ {n : ℕ}, n ≤ 2 ^ 27 →
      a < st.layout.mbitmapPhysical ∨ st.layout.mbitmapPhysical + 4 * n ≤ a →
      (st.fillBitmap n).mem a = st.mem a
  | 0, _, _ => rfl
  | n + 1, hn, ha => by
    have haddr : (st.fillBitmap n).wordAddr n = st.layout.mbitmapPhysical + 4 * n := by
      rw [wordAddr_eq (by simpa using hp) (by omega), fillBitmap_layout]
    rw [fillBitmap, setWord, haddr]
    refine (Mem.write32_apply_outside (by omega)).trans ?_
    exact fillBitmap_mem_outside hp (by omega) (by omega)

end Kmemlow

/-! ## The whole initialisation -/

section Init

variable (image : KernelImage) (api : MultibootApi) (st : Kmemlow)

/-- The state in which the filling loop starts: layout computed, counter at its
maximum, structure relocated. -/
def kmemlowPlaced : Kmemlow :=
  { st with
    mem := api.relocate (kmemlowLayout image api).kernelEndPhysical st.mem
    layout := kmemlowLayout image api
    usedBlocks := (kmemlowLayout image api).totalBlocks }

/-- The state in which the freeing pass starts: every word of the bitmap full. -/
def kmemlowFilled : Kmemlow :=
  (kmemlowPlaced image api st).fillBitmap (kmemlowLayout image api).bitmapSize

/-- First block at or above the kernel end. -/
def kernelBlocks : ℕ := (kmemlowLayout image api).kernelEndPhysical / 4096

variable {image api st}

@[simp] theorem kmemlowFilled_layout :
    (kmemlowFilled image api st).layout = kmemlowLayout image api :=
  Kmemlow.fillBitmap_layout _ _

variable (image api)

theorem mbitmapPhysical_lt : (kmemlowLayout image api).mbitmapPhysical < 2 ^ 30 := by
  have := image.below
  rw [kmemlowLayout_mbitmapPhysical]
  omega

theorem kernelBlocks_eq :
    4096 * kernelBlocks image api = (kmemlowLayout image api).kernelEndPhysical := by
  have := kmemlowLayout_kernelEndPhysical image api
  rw [kernelBlocks]
  omega

theorem kernelBlocks_bounds : 256 < kernelBlocks image api ∧ kernelBlocks image api < 2 ^ 19 := by
  have hkend := kmemlowLayout_kernelEndPhysical image api
  have hsize := kmemlowLayout_bitmapSize image api
  have htotal := kmemlowLayout_totalBlocks_lt image api
  have hstart := kmemlowLayout_mbitmapPhysical image api
  have := image.above
  have := image.below
  rw [kernelBlocks]
  omega

variable {image api}

/-- **The initialisation is three folds**: fill, free the available pages,
reserve everything below the kernel end. -/
theorem kmemlowInitAllocator_eq :
    kmemlowInitAllocator image api st =
      (List.range' 0 (kernelBlocks image api)).foldl Kmemlow.reserveStep
        ((availablePages api.mmap).foldl Kmemlow.freeStep (kmemlowFilled image api st)) := by
  obtain ⟨hlow, hhigh⟩ := kernelBlocks_bounds image api
  have hkend := kernelBlocks_eq image api
  have hlen : ((kmemlowLayout image api).kernelEndPhysical + 2 ^ 32 - 0x100000) % 2 ^ 32 / 4096 =
      kernelBlocks image api - 256 := by omega
  have hsplit : List.range' 0 (kernelBlocks image api) =
      List.range' 0 256 ++ List.range' 256 (kernelBlocks image api - 256) := by
    have happend := List.range'_append_1 (s := 0) (m := 256) (n := kernelBlocks image api - 256)
    rw [show 256 + (kernelBlocks image api - 256) = kernelBlocks image api by omega] at happend
    exact happend.symm
  rw [hsplit, List.foldl_append]
  simp only [kmemlowInitAllocator, Kmemlow.reserveRegion, hlen]
  rw [Kmemlow.regionLoop_eq_foldl _ _ _ _ (by omega),
      Kmemlow.regionLoop_eq_foldl _ _ _ _ (by omega),
    Kmemlow.freeAvailable_eq_foldl]
  rfl

@[simp] theorem kmemlowInitAllocator_layout :
    (kmemlowInitAllocator image api st).layout = kmemlowLayout image api := by
  rw [kmemlowInitAllocator_eq, Kmemlow.foldl_layout Kmemlow.reserveStep_layout,
    Kmemlow.foldl_layout Kmemlow.freeStep_layout, kmemlowFilled_layout]

theorem used_kmemlowFilled {b : ℕ} (hb : b < 32 * (kmemlowLayout image api).bitmapSize) :
    (kmemlowFilled image api st).used b = true := by
  have hsize := kmemlowLayout_bitmapSize image api
  have htotal := kmemlowLayout_totalBlocks_lt image api
  have hp : (kmemlowPlaced image api st).layout.mbitmapPhysical < 2 ^ 30 :=
      mbitmapPhysical_lt image api
  exact bitAt_of_full (Kmemlow.word_fillBitmap hp (by omega) (by omega))

/-- **What is free after the initialisation**: a block of the bitmap is clear
exactly when it is at or above the kernel end and in the truncated page range of
an available entry. -/
theorem used_kmemlowInitAllocator {b : ℕ} (hb : b < 32 * (kmemlowLayout image api).bitmapSize) :
    (kmemlowInitAllocator image api st).used b = false ↔
      kernelBlocks image api ≤ b ∧ b ∈ availablePages api.mmap := by
  obtain ⟨-, hhigh⟩ := kernelBlocks_bounds image api
  have hsize := kmemlowLayout_bitmapSize image api
  have htotal := kmemlowLayout_totalBlocks_lt image api
  have hp : (kmemlowFilled image api st).layout.mbitmapPhysical < 2 ^ 30 := by
    rw [kmemlowFilled_layout]
    exact mbitmapPhysical_lt image api
  have hfree : ∀ c ∈ availablePages api.mmap, c < 2 ^ 32 := fun c hc => by
    have := availablePages_lt hc
    omega
  have hreserve : ∀ c ∈ List.range' 0 (kernelBlocks image api), c < 2 ^ 32 := fun c hc => by
    have := List.mem_range'_1.mp hc
    omega
  rw [← Bool.not_eq_true, kmemlowInitAllocator_eq, Kmemlow.used_foldl_reserveStep
    (by rwa [Kmemlow.foldl_layout Kmemlow.freeStep_layout]) hreserve (by omega),
    Kmemlow.used_foldl_freeStep hp hfree (by omega), List.mem_range'_1]
  simp only [used_kmemlowFilled hb, true_and, not_or, not_not]
  constructor
  · rintro ⟨hpage, hge⟩
    exact ⟨by omega, hpage⟩
  · rintro ⟨hge, hpage⟩
    exact ⟨hpage, by omega⟩

/-- The bitmap words the initialisation accesses block by block. -/
theorem mem_touched_kmemlowInitAllocator {i : ℕ} (hst : st.touched = []) :
    i ∈ (kmemlowInitAllocator image api st).touched ↔
      ∃ b, (b ∈ availablePages api.mmap ∨ b < kernelBlocks image api) ∧ i = b / 32 := by
  have hfilled : (kmemlowFilled image api st).touched = [] :=
    (Kmemlow.fillBitmap_touched _ _).trans hst
  rw [kmemlowInitAllocator_eq, Kmemlow.mem_touched_foldl (fun _ _ => rfl),
    Kmemlow.mem_touched_foldl (fun _ _ => rfl), hfilled]
  simp only [List.not_mem_nil, false_or, List.mem_range'_1, Nat.zero_le, true_and, Nat.zero_add]
  constructor
  · rintro (⟨b, hb, hi⟩ | ⟨b, hb, hi⟩)
    · exact ⟨b, .inl hb, hi⟩
    · exact ⟨b, .inr hb, hi⟩
  · rintro ⟨b, hb | hb, hi⟩
    · exact .inl ⟨b, hb, hi⟩
    · exact .inr ⟨b, hb, hi⟩

/-- The counter after the initialisation, modulo `2 ^ 32`: one down for every
page of every available entry, one up for every block below the kernel end. -/
theorem usedBlocks_kmemlowInitAllocator (image : KernelImage) (api : MultibootApi) (st : Kmemlow) :
    (kmemlowInitAllocator image api st).usedBlocks + (availablePages api.mmap).length ≡
      (kmemlowLayout image api).totalBlocks + kernelBlocks image api [MOD 2 ^ 32] := by
  have hfilled : (kmemlowFilled image api st).usedBlocks = (kmemlowLayout image api).totalBlocks :=
    Kmemlow.fillBitmap_usedBlocks _ _
  have hfree := Kmemlow.usedBlocks_foldl_freeStep (availablePages api.mmap)
    (kmemlowFilled image api st)
  have hreserve := Kmemlow.usedBlocks_foldl_reserveStep (List.range' 0 (kernelBlocks image api))
    ((availablePages api.mmap).foldl Kmemlow.freeStep (kmemlowFilled image api st))
  rw [hfilled] at hfree
  rw [List.length_range'] at hreserve
  rw [kmemlowInitAllocator_eq]
  unfold Nat.ModEq at hfree hreserve ⊢
  omega

end Init

end MissyKernel
