import MissyKernel.BootPaging

/-!
# What the boot page tables translate

All steps of `ki_setup_paging` write into the memory that also holds the bitmap,
the kernel image and the tables built so far. `Built` is the state between two
steps: which frames have been taken, which words each of them holds as a table,
and that nothing else was touched. A step takes a frame (`Built.alloc`) or writes
inside one (`Built.write`).

`BootTables` is the result word by word; the translations are read off it.

`kiSetupPaging_cases` is what the setup does as a whole: it runs out of frames, or it leaves
`BootFilled` behind, the directory and three tables with known words. From there the translation
of every address is a case distinction on its directory entry. The kernel has one table, so the
result asks that it ends within the four megabytes of that one.
-/

namespace MissyKernel

variable {image : KernelImage} {api : MultibootApi} {old st : Kmemlow} {live new : List ℕ}
  {words : ℕ → ℕ → ℕ} {p q : ℕ}

/-- Since `old`, the frames `new` were taken; as a table, each `p` of them holds
`words p`. Nothing but these frames and their bits in the bitmap has changed. -/
structure Built (image : KernelImage) (api : MultibootApi) (old : Kmemlow) (live : List ℕ)
    (st : Kmemlow) (new : List ℕ) (words : ℕ → ℕ → ℕ) : Prop where
  /-- the boot got here -/
  reach : BootReach image api (.early st (new ++ live))
  /-- the contents of the new frames -/
  table : ∀ p ∈ new, Table st.mem p (words p)
  /-- the bits of the new frames were set, and no other -/
  bits : ∀ b < 32 * (kmemlowLayout image api).bitmapSize,
    st.used b = (old.used b || decide (b * 4096 ∈ new))
  /-- outside the new frames and the bitmap, memory is as it was -/
  bytes : ∀ a, (∀ p ∈ new, a < p ∨ p + 4096 ≤ a) →
    (a < (kmemlowLayout image api).mbitmapPhysical ∨
      (kmemlowLayout image api).mbitmapPhysical + 4 * (kmemlowLayout image api).bitmapSize ≤ a) →
    st.mem a = old.mem a

namespace Built

/-- Before the first step. -/
theorem refl (h : BootReach image api (.early old live)) (words : ℕ → ℕ → ℕ) :
    Built image api old live old [] words where
  reach := h
  table := fun _ hp => absurd hp List.not_mem_nil
  bits := fun _ _ => by simp
  bytes := fun _ _ _ => rfl

theorem layout (h : Built image api old live st new words) :
    st.layout = kmemlowLayout image api :=
  (FrameState.inv_of_reach h.reach).1

/-- The new frames are whole pages between the kernel and the end of memory. -/
theorem page (h : Built image api old live st new words) (hp : p ∈ new) :
    p % 4096 = 0 ∧ (kmemlowLayout image api).kernelEndPhysical ≤ p ∧
      p + 4096 ≤ (kmemlowLayout image api).totalBlocks * 4096 := by
  obtain ⟨halign, hge, hlt⟩ :=
    (FrameState.inv_of_reach h.reach).2.page p (List.mem_append_left _ hp)
  have := kernelBlocks_eq image api
  exact ⟨halign, by omega, by omega⟩

theorem ne_zero (h : Built image api old live st new words) (hp : p ∈ new) : p ≠ 0 := by
  obtain ⟨-, hge, -⟩ := h.page hp
  have hlow := (kernelBlocks_bounds image api).1
  have hkend := kernelBlocks_eq image api
  omega

/-- New frames are distinct, also from the frames that were live before. -/
theorem nodup (h : Built image api old live st new words) : (new ++ live).Nodup :=
  (FrameState.inv_of_reach h.reach).2.nodup

/-- One step that writes inside one of the frames. -/
theorem write (h : Built image api old live st new words) (hp : p ∈ new) {mem : Mem} {f : ℕ → ℕ}
    (hmem : ∀ a, a < p ∨ p + 4096 ≤ a → mem a = st.mem a) (hf : Table mem p f) :
    Built image api old live (st.setMem mem) new (Function.update words p f) := by
  obtain ⟨halign, hge, -⟩ := h.page hp
  refine ⟨h.reach.earlyWrite (List.mem_append_left _ hp) hmem, fun q hq => ?_, fun b hb => ?_,
    fun a ha hbitmap => ?_⟩
  · by_cases hqp : q = p
    · rw [hqp, Function.update_self]
      exact hf
    · rw [Function.update_of_ne hqp]
      have := (h.page hq).1
      exact (h.table q hq).congr fun a _ _ => hmem a (by omega)
  · rw [used_of_agree h.layout (fun a ha => hmem a (.inl (by omega))) hb]
    exact h.bits b hb
  · change mem a = _
    rw [hmem a (ha p hp)]
    exact h.bytes a ha hbitmap

/-- One step that takes a frame. What the frame holds is read off memory. -/
theorem alloc (h : Built image api old live st new words) (hne : (kmemlowAlloc st).1 ≠ 0) :
    ∃ f, Built image api old live (kmemlowAlloc st).2 ((kmemlowAlloc st).1 :: new)
      (Function.update words (kmemlowAlloc st).1 f) := by
  have hreach := h.reach.earlyAlloc
  rw [grant, if_neg hne, ← List.cons_append] at hreach
  obtain ⟨b, ⟨hfirst, -⟩, hcall⟩ | ⟨-, e, hcall⟩ := st.alloc_cases
  swap
  · rw [hcall] at hne
    exact absurd rfl hne
  obtain ⟨f, hf⟩ := exists_table (kmemlowAlloc st).2.mem (kmemlowAlloc st).1
  refine ⟨f, ?_⟩
  have hown := (FrameState.inv_of_reach hreach).2
  have htotal := kmemlowLayout_totalBlocks_lt image api
  have hsize := kmemlowLayout_bitmapSize image api
  have hphys := mbitmapPhysical_lt image api
  have hlt := hfirst.lt
  have hl := h.layout
  rw [hl] at hlt
  rw [hcall] at hreach hown hf ⊢
  simp only [Nat.mod_eq_of_lt (show b * 4096 < 2 ^ 32 by omega)] at hreach hown hf ⊢
  have haddr : st.wordAddr (b / 32) = (kmemlowLayout image api).mbitmapPhysical + 4 * (b / 32) := by
    rw [Kmemlow.wordAddr_eq (by rw [hl]; exact hphys) (by omega), hl]
  have hend := bitmap_below_kernelEnd image api
    (show b / 32 < (kmemlowLayout image api).bitmapSize by omega)
  -- the call writes one word of the bitmap
  have hmem : ∀ a, a < (kmemlowLayout image api).mbitmapPhysical + 4 * (b / 32) ∨
      (kmemlowLayout image api).mbitmapPhysical + 4 * (b / 32) + 4 ≤ a →
      (st.allocate b).mem a = st.mem a := by
    intro a ha
    rw [← haddr] at ha
    exact Mem.write32_apply_outside ha
  refine ⟨hreach, fun q hq => ?_, fun c hc => ?_, fun a ha hbitmap => ?_⟩
  · by_cases hqp : q = b * 4096
    · rw [hqp, Function.update_self]
      exact hf
    · rw [Function.update_of_ne hqp]
      have hqnew := (List.mem_cons.mp hq).resolve_left hqp
      have := (h.page hqnew).2.1
      exact (h.table q hqnew).congr fun a _ _ => hmem a (by omega)
  · rw [Kmemlow.used_allocate (by rw [hl]; exact hphys) (by omega) (by omega), h.bits c hc,
      Bool.or_assoc]
    congr 1
    rw [← Bool.decide_or]
    refine decide_eq_decide.mpr ?_
    rw [List.mem_cons, or_comm]
    exact or_congr_left (by omega)
  · rw [hmem a (by omega)]
    exact h.bytes a (fun p hp => ha p (List.mem_cons_of_mem _ hp)) hbitmap

/-- A frame is taken and cleared. -/
theorem newTable (h : Built image api old live st new words) {early : Kmemlow}
    (hcall : kmemlowAlloc st = (p, early)) (hne : p ≠ 0) :
    p ∉ new ∧ Built image api old live (early.setMem (kiMemset early.mem p 0 4096)) (p :: new)
      (Function.update words p fun _ => 0) := by
  obtain ⟨f, hb⟩ := h.alloc (by rw [hcall]; exact hne)
  rw [hcall] at hb
  have hw := hb.write List.mem_cons_self (fun _ ha => Mem.fill_apply_outside ha)
    (Table.fill_zero early.mem p)
  rw [Function.update_idem] at hw
  exact ⟨fun hp => (List.nodup_cons.mp hb.nodup).1 (List.mem_append_left _ hp), hw⟩

/-- An entry that points at an aligned frame is written into a table. -/
theorem setEntry (h : Built image api old live st new words) (hp : p ∈ new) (hq : q ∈ new) {k : ℕ}
    (hk : k < 1024) :
    Built image api old live
      (st.setMem (st.mem.write32 (p + 4 * k) (q ||| 0x1 ||| 0x4))) new
      (Function.update words p (Function.update (words p) k (q + 5))) := by
  have htotal := kmemlowLayout_totalBlocks_lt image api
  obtain ⟨halign, -, hbelow⟩ := h.page hq
  have hq5 : q + 5 < 2 ^ 32 := by omega
  rw [or_present_user halign]
  exact h.write hp (fun a ha => Mem.write32_apply_outside (by omega)) ((h.table p hp).write32 hq5)

/-- A frame is taken, cleared, and entered into the directory at `q`. -/
theorem addTable (h : Built image api old live st new words) {early : Kmemlow}
    (hcall : kmemlowAlloc st = (p, early)) (hne : p ≠ 0) (hq : q ∈ new) {k : ℕ} (hk : k < 1024) :
    p ∉ new ∧ ∃ words' : ℕ → ℕ → ℕ,
      Built image api old live
        (early.setMem ((kiMemset early.mem p 0 4096).write32 (q + 4 * k) (p ||| 0x1 ||| 0x4)))
        (p :: new) words' ∧
      words' q = Function.update (words q) k (p + 5) ∧ words' p = (fun _ => 0) ∧
      ∀ r ∈ new, r ≠ q → words' r = words r := by
  obtain ⟨hpnew, hb⟩ := h.newTable hcall hne
  have hqp : q ≠ p := fun he => hpnew (he ▸ hq)
  refine ⟨hpnew, _, hb.setEntry (List.mem_cons_of_mem p hq) List.mem_cons_self hk, ?_, ?_, ?_⟩
  · rw [Function.update_self, Function.update_of_ne hqp]
  · rw [Function.update_of_ne hqp.symm, Function.update_self]
  · intro r hr hrq
    have hrp : r ≠ p := fun he => hpnew (he ▸ hr)
    rw [Function.update_of_ne hrq, Function.update_of_ne hrp]

/-- The mapping loop writes inside its table. -/
theorem mapPages (h : Built image api old live st new words) (hp : p ∈ new)
    {bias limit first : ℕ} {f : ℕ → ℕ}
    (hf : Table (mapPages p bias limit (2 ^ 20) first st.mem) p f) :
    Built image api old live
      (st.setMem (mapPages p bias limit (2 ^ 20) first st.mem)) new
      (Function.update words p f) :=
  h.write hp (fun _ ha => mapPages_apply_outside ha _ _ _) hf

end Built

/-! ## The four steps -/

/-- A frame was missing after fewer than five had been taken. -/
def OutOfFrames (image : KernelImage) (api : MultibootApi) (old : Kmemlow) (live : List ℕ) :
    Prop :=
  ∃ (st : Kmemlow) (new : List ℕ) (words : ℕ → ℕ → ℕ), new.length < 5 ∧
    Built image api old live st new words ∧ (kmemlowAlloc st).1 = 0

/-- The words of the identity map. -/
def megabyteWords (j : ℕ) : ℕ := if 4096 * j < 0x100000 then 4096 * j + 5 else 0

/-- The words of the kernel's table. -/
def kernelWords (kernelEnd j : ℕ) : ℕ :=
  if 256 ≤ j ∧ 0xc0000000 + 4096 * j < kernelEnd then 4096 * j + 5 else 0

/-- What is known about the kernel's table: the words, when the kernel fits into it, and
that it is not empty, when the kernel is not. -/
structure KernelTable (kernelEnd : ℕ) (f : ℕ → ℕ) : Prop where
  /-- the pages of the kernel, each once -/
  words : kernelEnd ≤ 0xc0400000 → f = kernelWords kernelEnd
  /-- the first page is there, whatever was written over it -/
  filled : 0xc0100000 < kernelEnd → ∃ j < 1024, f j ≠ 0

/-- The first page of the kernel leaves an entry. -/
theorem mapPages_kernel_ne_zero {m : Mem} {t kend : ℕ} (hkend : 0xc0100000 < kend) :
    pageWord (mapPages t 0xc0000000 kend (2 ^ 20) 0xc0100000 m) t 256 ≠ 0 := by
  rw [show 2 ^ 20 = 2 ^ 20 - 1 + 1 by decide, mapPages, if_pos hkend]
  apply pageWord_mapPages_ne_zero
  rw [pageWord_write32_self, if_pos (by decide)]
  exact or_present_mod_ne_zero _

theorem exists_kernelTable {m : Mem} {t : ℕ} (kend : ℕ) (h : Table m t fun _ => 0) :
    ∃ f, Table (mapPages t 0xc0000000 kend (2 ^ 20) 0xc0100000 m) t f ∧ KernelTable kend f := by
  obtain ⟨f, hf, hwords⟩ : ∃ f, Table (mapPages t 0xc0000000 kend (2 ^ 20) 0xc0100000 m) t f ∧
      (kend ≤ 0xc0400000 → f = kernelWords kend) := by
    by_cases hfit : kend ≤ 0xc0400000
    · refine ⟨kernelWords kend, ?_, fun _ => rfl⟩
      refine h.mapPages 0xc0000000 0xc0000000 256 (by omega) (by omega) (by omega) (le_refl _)
        (by omega) (by omega) (by omega) fun j => ?_
      rw [kernelWords, Nat.add_sub_cancel_left]
    · obtain ⟨f, hf⟩ := exists_table (mapPages t 0xc0000000 kend (2 ^ 20) 0xc0100000 m) t
      exact ⟨f, hf, fun h => absurd h hfit⟩
  refine ⟨f, hf, hwords, ?_⟩
  intro hkend
  refine ⟨256, by decide, ?_⟩
  rw [← hf 256 (by decide)]
  exact mapPages_kernel_ne_zero hkend

/-- The words of the stack's table. -/
def stackWords (frame j : ℕ) : ℕ := if j = 1023 then frame + 5 else 0

namespace BootPaging

variable (bp : BootPaging)

theorem createPageDirectory_cases (h : Built image api old live bp.early new words) :
    (kmemlowAlloc bp.early).1 = 0 ∧ bp.createPageDirectory.1 = -1 ∨
    ∃ (d : ℕ) (early : Kmemlow),
      bp.createPageDirectory = (0, { bp with early := early, pageDirectory := d }) ∧
      Built image api old live early (d :: new)
        (Function.update words d (Function.update (fun _ => 0) 1023 (d + 5))) := by
  rcases hcall : kmemlowAlloc bp.early with ⟨d, early⟩
  by_cases hne : d = 0
  · refine .inl ⟨hne, ?_⟩
    simp only [createPageDirectory, hcall, if_pos hne, noMemory]
  · obtain ⟨-, hb⟩ := h.newTable hcall hne
    have hb := hb.setEntry List.mem_cons_self List.mem_cons_self (k := 1023) (by decide)
    rw [Function.update_self, Function.update_idem] at hb
    refine .inr ⟨d, _, ?_, hb⟩
    simp only [createPageDirectory, hcall, if_neg hne, setMem]
    rfl

theorem mapFirstMegabyte_cases (h : Built image api old live bp.early new words)
    (hdir : bp.pageDirectory ∈ new) :
    (kmemlowAlloc bp.early).1 = 0 ∧ bp.mapFirstMegabyte.1 = -1 ∨
    ∃ (t : ℕ) (early : Kmemlow) (words' : ℕ → ℕ → ℕ),
      bp.mapFirstMegabyte = (0, { bp with early := early, firstPagetable := t }) ∧
      Built image api old live early (t :: new) words' ∧
      words' bp.pageDirectory = Function.update (words bp.pageDirectory) 0 (t + 5) ∧
      words' t = megabyteWords ∧
      ∀ q ∈ new, q ≠ bp.pageDirectory → words' q = words q := by
  rcases hcall : kmemlowAlloc bp.early with ⟨t, early⟩
  by_cases hne : t = 0
  · refine .inl ⟨hne, ?_⟩
    simp only [mapFirstMegabyte, hcall, if_pos hne, noMemory]
  · obtain ⟨htnew, words₁, hb, hdir₁, htab, hrest⟩ :=
      h.addTable hcall hne hdir (show pdirEntry 0 < 1024 by decide)
    have hempty := hb.table t List.mem_cons_self
    rw [htab] at hempty
    have hb₂ := hb.mapPages List.mem_cons_self
      (hempty.mapPages (f := megabyteWords) 0 0 0 rfl (by omega) rfl (le_refl _) rfl (by omega)
        (le_of_lt (by decide : 0x100000 < 0 + 2 ^ 22)) fun j => by simp [megabyteWords])
    refine .inr ⟨t, _, _, ?_, hb₂, ?_, ?_, ?_⟩
    · simp only [mapFirstMegabyte, hcall, if_neg hne, setMem, Kmemlow.setMem_setMem,
        Kmemlow.setMem_mem]
    · rw [Function.update_of_ne (ne_of_mem_of_not_mem hdir htnew), hdir₁]
      rfl
    · rw [Function.update_self]
    · intro q hq hqd
      rw [Function.update_of_ne (ne_of_mem_of_not_mem hq htnew), hrest q hq hqd]

/-- `map_kernel` -/
theorem mapKernel_cases (h : Built image api old live bp.early new words)
    (hdir : bp.pageDirectory ∈ new) :
    (kmemlowAlloc bp.early).1 = 0 ∧ bp.mapKernel.1 = -1 ∨
    ∃ (t kend : ℕ) (early : Kmemlow) (words' : ℕ → ℕ → ℕ),
      bp.mapKernel =
        (0, { bp with early := early, kernelPagetable := t, kernelEndVirtual := kend }) ∧
      kend = ((kmemlowLayout image api).kernelEndPhysical + 0xc0000000) % 2 ^ 32 ∧
      Built image api old live early (t :: new) words' ∧
      words' bp.pageDirectory = Function.update (words bp.pageDirectory) 768 (t + 5) ∧
      KernelTable kend (words' t) ∧
      ∀ q ∈ new, q ≠ bp.pageDirectory → words' q = words q := by
  rcases hcall : kmemlowAlloc bp.early with ⟨t, early⟩
  by_cases hne : t = 0
  · refine .inl ⟨hne, ?_⟩
    simp only [mapKernel, hcall, if_pos hne, noMemory]
  · obtain ⟨htnew, words₁, hb, hdir₁, htab, hrest⟩ :=
      h.addTable hcall hne hdir (show pdirEntry 0xc0100000 < 1024 by decide)
    have hempty := hb.table t List.mem_cons_self
    rw [htab] at hempty
    have hl : early.layout = kmemlowLayout image api := hb.layout
    obtain ⟨kend, hkend⟩ : ∃ kend, kend =
      ((kmemlowLayout image api).kernelEndPhysical + 0xc0000000) % 2 ^ 32 := ⟨_, rfl⟩
    obtain ⟨f, hf, hkernel⟩ := exists_kernelTable kend hempty
    refine .inr ⟨t, kend, _, _, ?_, hkend, hb.mapPages List.mem_cons_self hf, ?_, ?_, ?_⟩
    · simp only [mapKernel, hcall, if_neg hne, setMem, hl, ← hkend, Kmemlow.setMem_setMem,
        Kmemlow.setMem_mem]
    · rw [Function.update_of_ne (ne_of_mem_of_not_mem hdir htnew), hdir₁]
      rfl
    · rw [Function.update_self]
      exact hkernel
    · intro q hq hqd
      rw [Function.update_of_ne (ne_of_mem_of_not_mem hq htnew), hrest q hq hqd]

theorem createNewKernelStack_cases (h : Built image api old live bp.early new words)
    (hdir : bp.pageDirectory ∈ new) :
    (∃ (st : Kmemlow) (new' : List ℕ) (words' : ℕ → ℕ → ℕ), new'.length ≤ new.length + 1 ∧
      Built image api old live st new' words' ∧ (kmemlowAlloc st).1 = 0) ∧
      bp.createNewKernelStack.1 = -1 ∨
    ∃ (t frame : ℕ) (early : Kmemlow) (words' : ℕ → ℕ → ℕ),
      bp.createNewKernelStack = (0, { bp with early := early, kernelStackMap := t }) ∧
      Built image api old live early (frame :: t :: new) words' ∧
      words' bp.pageDirectory = Function.update (words bp.pageDirectory) 1022 (t + 5) ∧
      words' t = stackWords frame ∧
      ∀ q ∈ new, q ≠ bp.pageDirectory → words' q = words q := by
  rcases hcall : kmemlowAlloc bp.early with ⟨t, early⟩
  by_cases hne : t = 0
  · refine .inl ⟨⟨bp.early, new, words, by omega, h, by rw [hcall]; exact hne⟩, ?_⟩
    simp only [createNewKernelStack, hcall, if_pos hne, noMemory]
  obtain ⟨f, hb⟩ := h.alloc (by rw [hcall]; exact hne)
  simp only [hcall] at hb
  rcases hcall' : kmemlowAlloc early with ⟨frame, early'⟩
  by_cases hne' : frame = 0
  · refine .inl ⟨⟨early, t :: new, _, by simp, hb, by rw [hcall']; exact hne'⟩, ?_⟩
    simp only [createNewKernelStack, hcall, hcall', if_neg hne, if_pos hne', noMemory]
  obtain ⟨f', hb'⟩ := hb.alloc (by rw [hcall']; exact hne')
  simp only [hcall'] at hb'
  have htmem : t ∈ frame :: t :: new := by simp
  have hdmem : bp.pageDirectory ∈ frame :: t :: new := by simp [hdir]
  obtain ⟨hframe, hnd⟩ := List.nodup_cons.mp (List.nodup_append.mp hb'.nodup).1
  have htnew := (List.nodup_cons.mp hnd).1
  have hft : t ≠ frame := ne_of_mem_of_not_mem List.mem_cons_self hframe
  have hfd := ne_of_mem_of_not_mem (List.mem_cons_of_mem t hdir) hframe
  have htd := ne_of_mem_of_not_mem hdir htnew
  -- both frames are cleared, then the two entries are written
  have hb₁ := hb'.write htmem (fun _ ha => Mem.fill_apply_outside ha) (Table.fill_zero early'.mem t)
  have hb₂ := hb₁.write List.mem_cons_self (fun _ ha => Mem.fill_apply_outside ha)
    (Table.fill_zero (early'.mem.fill t 0 4096) frame)
  have hb₃ := hb₂.setEntry hdmem htmem (show pdirEntry kernelStackMapping < 1024 by decide)
  have hb₄ := hb₃.setEntry htmem List.mem_cons_self
    (show ptableEntry kernelStackMapping < 1024 by decide)
  refine .inr ⟨t, frame, _, _, ?_, hb₄, ?_, ?_, ?_⟩
  · simp only [createNewKernelStack, hcall, hcall', if_neg hne, if_neg hne', setMem]
    rfl
  · rw [Function.update_of_ne htd, Function.update_self, Function.update_of_ne hfd,
      Function.update_of_ne htd, Function.update_of_ne hfd, Function.update_of_ne htd]
    rfl
  · funext j
    rw [Function.update_self, Function.update_of_ne htd.symm, Function.update_of_ne hft,
      Function.update_self, Function.update_apply, stackWords]
    rfl
  · intro q hq hqd
    have hqt := ne_of_mem_of_not_mem hq htnew
    have hqf := ne_of_mem_of_not_mem (List.mem_cons_of_mem t hq) hframe
    rw [Function.update_of_ne hqt, Function.update_of_ne hqd, Function.update_of_ne hqf,
      Function.update_of_ne hqt, Function.update_of_ne hqf, Function.update_of_ne hqt]

end BootPaging

/-! ## The whole setup -/

/-- The words of the finished directory. -/
def directoryWords (bp : BootPaging) (j : ℕ) : ℕ :=
  if j = 1022 then bp.kernelStackMap + 5
  else if j = 768 then bp.kernelPagetable + 5
  else if j = 0 then bp.firstPagetable + 5
  else if j = 1023 then bp.pageDirectory + 5
  else 0

/-- The four tables hold the words they are meant to hold. -/
structure BootTables (bp : BootPaging) (frame : ℕ) : Prop where
  /-- the directory -/
  directory : Table bp.early.mem bp.pageDirectory (directoryWords bp)
  /-- the identity map of the first megabyte -/
  megabyte : Table bp.early.mem bp.firstPagetable megabyteWords
  /-- the kernel -/
  kernel : Table bp.early.mem bp.kernelPagetable (kernelWords bp.kernelEndVirtual)
  /-- the stack -/
  stack : Table bp.early.mem bp.kernelStackMap (stackWords frame)

/-- The same whatever the kernel's size; a long kernel writes over the entries of its
table. -/
structure BootFilled (bp : BootPaging) (frame : ℕ) : Prop where
  /-- the directory -/
  directory : Table bp.early.mem bp.pageDirectory (directoryWords bp)
  /-- the identity map of the first megabyte -/
  megabyte : Table bp.early.mem bp.firstPagetable megabyteWords
  /-- the kernel -/
  kernel : ∃ f, Table bp.early.mem bp.kernelPagetable f ∧ KernelTable bp.kernelEndVirtual f
  /-- the stack -/
  stack : Table bp.early.mem bp.kernelStackMap (stackWords frame)

theorem BootFilled.tables {bp : BootPaging} {frame : ℕ} (h : BootFilled bp frame)
    (hfit : bp.kernelEndVirtual ≤ 0xc0400000) : BootTables bp frame := by
  obtain ⟨f, hf, hkernel⟩ := h.kernel
  refine ⟨h.directory, h.megabyte, ?_, h.stack⟩
  rw [← hkernel.words hfit]
  exact hf

/-- The five frames of the setup. -/
def bootFrames (bp : BootPaging) (frame : ℕ) : List ℕ :=
  [frame, bp.kernelStackMap, bp.kernelPagetable, bp.firstPagetable, bp.pageDirectory]

/-- What the entries of the finished directory point at. -/
theorem directoryWords_cases (bp : BootPaging) {d : ℕ} (hd : d < 1023) :
    directoryWords bp d = 0 ∨ ∃ t ∈ [bp.firstPagetable, bp.kernelPagetable, bp.kernelStackMap],
      directoryWords bp d = t + 5 := by
  rw [directoryWords]
  split_ifs with h1022 h768 h0 h1023
  · exact .inr ⟨_, by simp, rfl⟩
  · exact .inr ⟨_, by simp, rfl⟩
  · exact .inr ⟨_, by simp, rfl⟩
  · omega
  · exact .inl rfl

/-- The three tables are frames of the setup other than the directory. -/
theorem mem_bootFrames_of_table {bp : BootPaging} {frame t : ℕ}
    (hnd : (bootFrames bp frame).Nodup)
    (ht : t ∈ [bp.firstPagetable, bp.kernelPagetable, bp.kernelStackMap]) :
    t ∈ bootFrames bp frame ∧ t ≠ bp.pageDirectory := by
  simp only [bootFrames, List.nodup_cons, List.mem_cons, not_or, List.not_mem_nil, or_false]
    at hnd ht ⊢
  rcases ht with rfl | rfl | rfl
  · exact ⟨by simp, hnd.2.2.2.1⟩
  · exact ⟨by simp, hnd.2.2.1.2⟩
  · exact ⟨by simp, hnd.2.1.2.2⟩

/-- What `ki_setup_paging` does: it runs out of frames, or it takes five and fills
the tables. -/
theorem kiSetupPaging_cases (h : BootReach image api (.early old live)) :
    OutOfFrames image api old live ∧ (kiSetupPaging (.start old)).1 = -1 ∨
    ∃ (bp : BootPaging) (frame : ℕ) (words : ℕ → ℕ → ℕ),
      kiSetupPaging (.start old) = (0, bp) ∧
      bp.kernelEndVirtual =
        ((kmemlowLayout image api).kernelEndPhysical + 0xc0000000) % 2 ^ 32 ∧
      Built image api old live bp.early (bootFrames bp frame) words ∧ BootFilled bp frame := by
  -- each step either finds no frame or adds its frames to what is built
  obtain ⟨hz, hres⟩ | ⟨d, early₁, hres₁, hb₁⟩ :=
    BootPaging.createPageDirectory_cases (.start old) (Built.refl h fun _ _ => 0)
  · refine .inl ⟨⟨old, [], _, by decide, Built.refl h fun _ _ => 0, hz⟩, ?_⟩
    simp [kiSetupPaging, hres]
  obtain ⟨hz, hres⟩ | ⟨t, early₂, words₂, hres₂, hb₂, hdir₂, htab₂, hrest₂⟩ :=
    BootPaging.mapFirstMegabyte_cases
      { BootPaging.start old with early := early₁, pageDirectory := d } hb₁ List.mem_cons_self
  · refine .inl ⟨⟨_, _, _, by simp, hb₁, hz⟩, ?_⟩
    simp [kiSetupPaging, hres₁, hres]
  obtain ⟨hz, hres⟩ | ⟨k, kend, early₃, words₃, hres₃, hkend, hb₃, hdir₃, htab₃, hrest₃⟩ :=
    BootPaging.mapKernel_cases
      { BootPaging.start old with early := early₂, pageDirectory := d, firstPagetable := t } hb₂
      (by simp)
  · refine .inl ⟨⟨_, _, _, by simp, hb₂, hz⟩, ?_⟩
    simp [kiSetupPaging, hres₁, hres₂, hres]
  obtain ⟨⟨st, new, words, hlen, hb, hz⟩, hres⟩ |
    ⟨s, frame, early₄, words₄, hres₄, hb₄, hdir₄, htab₄, hrest₄⟩ :=
    BootPaging.createNewKernelStack_cases
      { BootPaging.start old with
        early := early₃, pageDirectory := d, firstPagetable := t, kernelPagetable := k,
        kernelEndVirtual := kend } hb₃ (by simp)
  · refine .inl ⟨⟨st, new, words, by simpa using Nat.lt_succ_of_le hlen, hb, hz⟩, ?_⟩
    simp [kiSetupPaging, hres₁, hres₂, hres₃, hres]
  refine .inr ⟨⟨early₄, d, t, k, s, kend⟩, frame, words₄, ?_, hkend, hb₄, ?_⟩
  · simp [kiSetupPaging, hres₁, hres₂, hres₃, hres₄]
  · have hnd := (List.nodup_append.mp hb₄.nodup).1
    simp only [BootPaging.start] at hdir₂ hdir₃ hdir₄ hrest₂ hrest₃ hrest₄
    simp only [List.nodup_cons, List.mem_cons, not_or, List.not_mem_nil] at hnd
    obtain ⟨-, -, ⟨-, hkd, -⟩, ⟨htd, -⟩, -⟩ := hnd
    refine ⟨?_, ?_, ?_, ?_⟩
    · have htab := hb₄.table d (by simp)
      rw [hdir₄, hdir₃, hdir₂, Function.update_self] at htab
      intro j hj
      rw [htab j hj, Function.update_apply, Function.update_apply, Function.update_apply,
        Function.update_apply]
      rfl
    · have htab := hb₄.table t (by simp)
      rw [hrest₄ t (by simp) htd, hrest₃ t (by simp) htd, htab₂] at htab
      exact htab
    · have htab := hb₄.table k (by simp)
      rw [hrest₄ k (by simp) hkd] at htab
      exact ⟨_, htab, htab₃⟩
    · have htab := hb₄.table s (by simp)
      rw [htab₄] at htab
      exact htab

/-- With five scanned blocks clear, the setup does not run out of frames. -/
theorem not_outOfFrames (blocks : List ℕ) (hnd : blocks.Nodup) (hlen : 5 ≤ blocks.length)
    (hclear : ∀ b ∈ blocks, b < 32 * ((kmemlowLayout image api).totalBlocks / 32) ∧
      old.used b = false) : ¬ OutOfFrames image api old live := by
  rintro ⟨st, new, words, hfew, hb, hz⟩
  -- one of the five has not been taken
  obtain ⟨b, hbmem, hbnew⟩ : ∃ b ∈ blocks, b * 4096 ∉ new := by
    by_contra hall
    push Not at hall
    have hmap : (blocks.map (· * 4096)).Nodup := hnd.map fun a c h => by
      simpa using h
    have hsub : blocks.map (· * 4096) ⊆ new := by
      intro q hq
      obtain ⟨b, hbm, rfl⟩ := List.mem_map.mp hq
      exact hall b hbm
    have := (List.subperm_of_subset hmap hsub).length_le
    rw [List.length_map] at this
    omega
  obtain ⟨hlt, hold⟩ := hclear b hbmem
  obtain ⟨hl, hown⟩ := FrameState.inv_of_reach hb.reach
  refine hown.kmemlowAlloc_ne_zero hl (b := b) (by rw [hl]; exact hlt) ?_ hz
  have hsize := kmemlowLayout_bitmapSize image api
  rw [hb.bits b (by omega), hold]
  simpa using hbnew

/-! ## The translations -/

section Walk

variable {m : Mem} {root t v : ℕ} {f g : ℕ → ℕ}

theorem present_add_five (hp : p % 4096 = 0) : Present (p + 5) := by
  rw [Present]
  omega

/-- A walk through a table that the directory points at. -/
theorem translate_of_entry (hdir : Table m root f) (htab : Table m t g) (hv : v < 2 ^ 32)
    (ht : t % 4096 = 0) (hq : q % 4096 = 0) (hf : f (v / 2 ^ 22) = t + 5)
    (hg : g (v / 4096 % 1024) = q + 5) : translate m root v = some (q + v % 4096) := by
  have hd := hdir (v / 2 ^ 22) (by omega)
  have hw := htab (v / 4096 % 1024) (Nat.mod_lt _ (by decide))
  have hframe : entryFrame (t + 5) = t := entryFrame_add ht (by decide)
  rw [translate_of_present, hd, hf, hframe, hw, hg, entryFrame_add hq (by decide)]
  · rw [hd, hf]
    exact present_add_five ht
  · rw [hd, hf, hframe, hw, hg]
    exact present_add_five hq

/-- A walk that ends at an empty entry of a table. -/
theorem translate_of_empty_entry (hdir : Table m root f) (htab : Table m t g) (hv : v < 2 ^ 32)
    (ht : t % 4096 = 0) (hf : f (v / 2 ^ 22) = t + 5) (hg : g (v / 4096 % 1024) = 0) :
    translate m root v = none := by
  refine translate_of_no_page ?_
  rw [hdir _ (by omega), hf, entryFrame_add ht (by decide),
    htab _ (Nat.mod_lt _ (by decide)), hg]
  exact not_present_zero

/-- A walk that ends at an empty entry of the directory. -/
theorem translate_of_empty_table (hdir : Table m root f) (hv : v < 2 ^ 32)
    (hf : f (v / 2 ^ 22) = 0) : translate m root v = none := by
  refine translate_of_no_table ?_
  rw [hdir _ (by omega), hf]
  exact not_present_zero

end Walk

section Walks

variable {bp : BootPaging} {frame v off : ℕ}

theorem directoryWords_eq_zero {j : ℕ} (h : j ≠ 1022 ∧ j ≠ 768 ∧ j ≠ 0 ∧ j ≠ 1023) :
    directoryWords bp j = 0 := by
  rw [directoryWords, if_neg h.1, if_neg h.2.1, if_neg h.2.2.1, if_neg h.2.2.2]

/-- The whole address space below the window, read off the tables. -/
theorem BootTables.translate_below (h : BootTables bp frame)
    (halign : ∀ p ∈ bootFrames bp frame, p % 4096 = 0) (hend : bp.kernelEndVirtual % 4096 = 0)
    (hfit : bp.kernelEndVirtual ≤ 0xc0400000) (hv : v < 0xffc00000) :
    translate bp.early.mem bp.pageDirectory v =
      if v < 0x100000 then some v
      else if 0xc0100000 ≤ v ∧ v < bp.kernelEndVirtual then some (v - 0xc0000000)
      else if 0xffbff000 ≤ v then some (frame + (v - 0xffbff000))
      else none := by
  have hframe := halign frame (by simp [bootFrames])
  have hfirst := halign bp.firstPagetable (by simp [bootFrames])
  have hkernel := halign bp.kernelPagetable (by simp [bootFrames])
  have hstack := halign bp.kernelStackMap (by simp [bootFrames])
  -- one case per table that the directory points at below the window
  by_cases h0 : v / 2 ^ 22 = 0
  · have hf : directoryWords bp (v / 2 ^ 22) = bp.firstPagetable + 5 := by
      rw [h0]
      rfl
    by_cases hmeg : v < 0x100000
    · rw [if_pos hmeg, translate_of_entry (q := v / 4096 * 4096) h.directory h.megabyte (by omega)
        hfirst (by omega) hf]
      · exact congrArg some (by omega)
      · rw [megabyteWords, if_pos (by omega)]
        omega
    · rw [if_neg hmeg, if_neg (by omega), if_neg (by omega)]
      refine translate_of_empty_entry h.directory h.megabyte (by omega) hfirst hf ?_
      rw [megabyteWords, if_neg (by omega)]
  by_cases h768 : v / 2 ^ 22 = 768
  · have hf : directoryWords bp (v / 2 ^ 22) = bp.kernelPagetable + 5 := by
      rw [h768]
      rfl
    by_cases hker : 0xc0100000 ≤ v ∧ v < bp.kernelEndVirtual
    · rw [if_neg (by omega), if_pos hker, translate_of_entry (q := v / 4096 % 1024 * 4096)
        h.directory h.kernel (by omega) hkernel (by omega) hf]
      · exact congrArg some (by omega)
      · rw [kernelWords, if_pos (by omega)]
        omega
    · rw [if_neg (by omega), if_neg hker, if_neg (by omega)]
      refine translate_of_empty_entry h.directory h.kernel (by omega) hkernel hf ?_
      rw [kernelWords, if_neg (by omega)]
  by_cases h1022 : v / 2 ^ 22 = 1022
  · have hf : directoryWords bp (v / 2 ^ 22) = bp.kernelStackMap + 5 := by
      rw [h1022]
      rfl
    by_cases hstk : 0xffbff000 ≤ v
    · rw [if_neg (by omega), if_neg (by omega), if_pos hstk, translate_of_entry (q := frame)
        h.directory h.stack (by omega) hstack hframe hf]
      · exact congrArg some (by omega)
      · rw [stackWords, if_pos (by omega)]
    · rw [if_neg (by omega), if_neg (by omega), if_neg hstk]
      refine translate_of_empty_entry h.directory h.stack (by omega) hstack hf ?_
      rw [stackWords, if_neg (by omega)]
  · rw [if_neg (by omega), if_neg (by omega), if_neg (by omega)]
    exact translate_of_empty_table h.directory (by omega)
      (directoryWords_eq_zero ⟨h1022, h768, h0, by omega⟩)

/-- The directory points at itself. -/
theorem bootDirectory_recursive (h : Table bp.early.mem bp.pageDirectory (directoryWords bp))
    (halign : ∀ p ∈ bootFrames bp frame, p % 4096 = 0) :
    Recursive bp.early.mem bp.pageDirectory := by
  have hdir := halign bp.pageDirectory (by simp [bootFrames])
  have hword : pageWord bp.early.mem bp.pageDirectory 1023 = bp.pageDirectory + 5 :=
    h 1023 (by decide)
  rw [Recursive, hword]
  exact ⟨present_add_five hdir, entryFrame_add hdir (by decide)⟩

/-- The window, page by page. -/
theorem BootTables.translate_window (h : BootTables bp frame)
    (halign : ∀ p ∈ bootFrames bp frame, p % 4096 = 0) {d : ℕ} (hd : d < 1024)
    (hoff : off < 4096) :
    translate bp.early.mem bp.pageDirectory (0xffc00000 + d * 4096 + off) =
      if d = 1022 then some (bp.kernelStackMap + off)
      else if d = 768 then some (bp.kernelPagetable + off)
      else if d = 0 then some (bp.firstPagetable + off)
      else if d = 1023 then some (bp.pageDirectory + off)
      else none := by
  have hrec := bootDirectory_recursive h.directory halign
  have hword : pageWord bp.early.mem bp.pageDirectory d = directoryWords bp d := h.directory d hd
  have hshow : ∀ p ∈ bootFrames bp frame, directoryWords bp d = p + 5 →
      translate bp.early.mem bp.pageDirectory (0xffc00000 + d * 4096 + off) = some (p + off) := by
    intro p hp hdp
    rw [MissyKernel.translate_window hrec hd hoff, hword, hdp,
      entryFrame_add (halign p hp) (by decide)]
    rw [hword, hdp]
    exact present_add_five (halign p hp)
  split_ifs with h1022 h768 h0 h1023
  · exact hshow _ (by simp [bootFrames]) (by rw [h1022]; rfl)
  · exact hshow _ (by simp [bootFrames]) (by rw [h768]; rfl)
  · exact hshow _ (by simp [bootFrames]) (by rw [h0]; rfl)
  · exact hshow _ (by simp [bootFrames]) (by rw [h1023]; rfl)
  · refine translate_window_absent hrec hd hoff ?_
    rw [hword, directoryWords_eq_zero ⟨h1022, h768, h0, h1023⟩]
    exact not_present_zero

end Walks

/-- What the boot directory is meant to translate, and what building it may touch.
`old` is the state before, `frame` the frame under the stack page. -/
structure BootTranslation (image : KernelImage) (api : MultibootApi) (old : Kmemlow)
    (live : List ℕ) (bp : BootPaging) (frame : ℕ) : Prop where
  /-- the first megabyte translates to itself -/
  megabyte : ∀ v < 0x100000, translate bp.early.mem bp.pageDirectory v = some v
  /-- the kernel translates to where it was loaded -/
  kernel : ∀ v, 0xc0100000 ≤ v → v < bp.kernelEndVirtual →
    translate bp.early.mem bp.pageDirectory v = some (v - 0xc0000000)
  /-- the stack page translates to its frame -/
  stack : ∀ off < 4096,
    translate bp.early.mem bp.pageDirectory (0xffbff000 + off) = some (frame + off)
  /-- and no other address does -/
  stackOnly : ∀ v < 2 ^ 32, ∀ off < 4096,
    translate bp.early.mem bp.pageDirectory v = some (frame + off) → v = 0xffbff000 + off
  /-- the window shows the four tables -/
  window : ∀ d < 1024, ∀ off < 4096,
    translate bp.early.mem bp.pageDirectory (0xffc00000 + d * 4096 + off) =
      if d = 1022 then some (bp.kernelStackMap + off)
      else if d = 768 then some (bp.kernelPagetable + off)
      else if d = 0 then some (bp.firstPagetable + off)
      else if d = 1023 then some (bp.pageDirectory + off)
      else none
  /-- below the window, nothing else is present -/
  absent : ∀ v < 0xffbff000, 0x100000 ≤ v → ¬ (0xc0100000 ≤ v ∧ v < bp.kernelEndVirtual) →
    translate bp.early.mem bp.pageDirectory v = none
  /-- the five frames are distinct from each other and from the frames in use -/
  distinct : (bootFrames bp frame ++ live).Nodup
  /-- they are whole pages above the kernel and the bitmap -/
  above : ∀ p ∈ bootFrames bp frame, p % 4096 = 0 ∧
    (kmemlowLayout image api).kernelEndPhysical ≤ p ∧
      p + 4096 ≤ (kmemlowLayout image api).totalBlocks * 4096
  /-- no step has damaged a table -/
  tables : BootTables bp frame
  /-- outside the five frames and the bitmap no byte has changed -/
  bytes : ∀ a, (∀ p ∈ bootFrames bp frame, a < p ∨ p + 4096 ≤ a) →
    (a < (kmemlowLayout image api).mbitmapPhysical ∨
      (kmemlowLayout image api).mbitmapPhysical + 4 * (kmemlowLayout image api).bitmapSize ≤ a) →
    bp.early.mem a = old.mem a
  /-- in the bitmap, exactly the bits of the five frames were set -/
  bits : ∀ b < 32 * (kmemlowLayout image api).bitmapSize,
    bp.early.used b = (old.used b || decide (b * 4096 ∈ bootFrames bp frame))

/-- **The boot directory translates as intended.** When the setup succeeds and the kernel ends
within its table, the directory maps the first megabyte, the kernel, one page of stack and the
tables, and nothing else; no step writes outside the five frames it took but for their bits in the
bitmap.

The proof goes through the setup once (`kiSetupPaging_cases`), which leaves five frames with known
words, and then through the address space: below the window by the directory entry
(`BootTables.translate_below`), in the window by the table (`BootTables.translate_window`). -/
theorem boot_directory_translates (image : KernelImage) (api : MultibootApi) (old : Kmemlow)
    (live : List ℕ) (h : BootReach image api (.early old live))
    (hok : (kiSetupPaging (.start old)).1 = 0)
    (hend : (kiSetupPaging (.start old)).2.kernelEndVirtual ≤ 0xc0400000) :
    ∃ frame, BootTranslation image api old live (kiSetupPaging (.start old)).2 frame := by
  obtain ⟨-, hfail⟩ | ⟨bp, frame, words, hres, hkend, hb, htables⟩ := kiSetupPaging_cases h
  · rw [hok] at hfail
    cases hfail
  rw [hres] at hend ⊢
  change bp.kernelEndVirtual ≤ _ at hend
  change ∃ frame, BootTranslation image api old live bp frame
  have ht := htables.tables hend
  have hkendpage := kernelBlocks_eq image api
  obtain ⟨hlow, hhigh⟩ := kernelBlocks_bounds image api
  have hpage := fun p (hp : p ∈ bootFrames bp frame) => hb.page hp
  have halign := fun p (hp : p ∈ bootFrames bp frame) => (hb.page hp).1
  have hbelow := fun v (hv : v < 0xffc00000) =>
    ht.translate_below halign (by rw [hkend]; omega) hend hv
  have hwindow := fun d (hd : d < 1024) off (hoff : off < 4096) =>
    ht.translate_window halign hd hoff
  have hframe := hpage frame (by simp [bootFrames])
  refine ⟨frame, ?_, ?_, ?_, ?_, hwindow, ?_, hb.nodup, hpage, ht, hb.bytes, hb.bits⟩
  · intro v hv
    rw [hbelow v (by omega), if_pos hv]
  · intro v hv hv'
    rw [hbelow v (by omega), if_neg (by omega), if_pos ⟨hv, hv'⟩]
  · intro off hoff
    rw [hbelow _ (by omega), if_neg (by omega), if_neg (by omega), if_pos (by omega),
      Nat.add_sub_cancel_left]
  · -- the walk ends in the first megabyte, in the kernel, in a table or in the stack frame
    intro v hv off hoff htr
    by_cases hwin : v < 0xffc00000
    · rw [hbelow v hwin] at htr
      split_ifs at htr with hmeg hker hstk
      · have := Option.some.inj htr
        omega
      · have := Option.some.inj htr
        omega
      · have := Option.some.inj htr
        omega
    · have hsplit : v = 0xffc00000 + (v - 0xffc00000) / 4096 * 4096 + v % 4096 := by omega
      have hother : ∀ p ∈ bootFrames bp frame, p ≠ frame →
          some (p + v % 4096) ≠ some (frame + off) := by
        intro p hp hne heq
        have := halign p hp
        have := Option.some.inj heq
        omega
      have hnd := (List.nodup_cons.mp (List.nodup_append.mp hb.nodup).1).1
      rw [hsplit, hwindow _ (by omega) _ (Nat.mod_lt _ (by decide))] at htr
      split_ifs at htr
      · exact absurd htr (hother _ (by simp [bootFrames]) fun he => hnd (by simp [he]))
      · exact absurd htr (hother _ (by simp [bootFrames]) fun he => hnd (by simp [he]))
      · exact absurd htr (hother _ (by simp [bootFrames]) fun he => hnd (by simp [he]))
      · exact absurd htr (hother _ (by simp [bootFrames]) fun he => hnd (by simp [he]))
  · intro v hv hv' hker
    rw [hbelow v (by omega), if_neg (by omega), if_neg hker, if_neg (by omega)]

/-- The 64 MiB machine has the frames, and its kernel fits into its table. -/
theorem pcBoot_setup : (kiSetupPaging (.start pcBoot)).1 = 0 ∧
    (kiSetupPaging (.start pcBoot)).2.kernelEndVirtual ≤ 0xc0400000 := by
  obtain ⟨hout, -⟩ | ⟨bp, frame, words, hres, hkend, -, -⟩ := kiSetupPaging_cases pcBoot_reach
  · refine absurd hout (not_outOfFrames [300, 301, 302, 303, 304] (by decide) (by decide) ?_)
    intro b hb
    have hb' : 300 ≤ b ∧ b < 305 := by
      simp only [List.mem_cons, List.not_mem_nil, or_false] at hb
      omega
    have htotal : (kmemlowLayout smallImage pcApi).totalBlocks = 16288 := by decide
    exact ⟨by omega, pcBoot_clear (by omega) (by omega)⟩
  · rw [hres]
    refine ⟨rfl, ?_⟩
    change bp.kernelEndVirtual ≤ _
    rw [hkend]
    decide

/-- The 64 MiB machine sets its tables up. -/
theorem boot_directory_translates_pc :
    (kiSetupPaging (.start pcBoot)).1 = 0 ∧
      ∃ frame,
        BootTranslation smallImage pcApi pcBoot [] (kiSetupPaging (.start pcBoot)).2 frame :=
  ⟨pcBoot_setup.1, boot_directory_translates smallImage pcApi pcBoot [] pcBoot_reach
    pcBoot_setup.1 pcBoot_setup.2⟩

end MissyKernel
