import MissyKernel.KernelHeap

/-!
# When the break and the mapped heap agree

The heap is meant to be the pages from its base to the break, each on a frame of its
own. Growing by one page (`Grown`) takes the next free frame, and the one after it for
a table where there is none. `Supplies` is the plan of a growth: which frames the pages
and the tables get. As long as every growth is supplied, and the break is lowered within
its page only, the pages and the break agree after every call.

The plan is a condition on the state before the call: as many clear blocks as there are pages
and missing tables, in the order in which the allocator finds them, and frames for tables that
hold nothing. Where the tables are there it is a matter of counting (`Supplies.of_card`).
`allocateNewBrk_grows` is the induction over the pages of one growth,
`HeapInv.run` the step of the run. A lowering over a page boundary is not among the calls: the
number of pages that `brk` computes for it wraps.
-/

namespace MissyKernel

/-- The page of the kernel stack: the heap ends below it. -/
def heapEnd : ℕ := kernelStackMapping / 4096

/-- The heap pages from `first` on are mapped up to `last`, each to a frame of its own
that is marked, and neither frame 0 nor a table. -/
structure HeapPages (st : Paging) (first last : ℕ) : Prop where
  /-- exactly the pages below `last` are mapped -/
  mapped : ∀ k, first ≤ k → k < heapEnd →
    (translate st.phys st.cr3 (k * 4096) ≠ none ↔ k < last)
  /-- the frames are marked -/
  marked : ∀ k f, first ≤ k → k < heapEnd → translate st.phys st.cr3 (k * 4096) = some f →
    st.balloc.used (f / 4096) = true
  /-- none is frame 0 -/
  notNull : ∀ k f, first ≤ k → k < heapEnd → translate st.phys st.cr3 (k * 4096) = some f → f ≠ 0
  /-- none is the directory -/
  notDirectory : ∀ k f, first ≤ k → k < heapEnd → translate st.phys st.cr3 (k * 4096) = some f →
    f ≠ st.cr3
  /-- none is a table -/
  notTable : ∀ k f, first ≤ k → k < heapEnd → translate st.phys st.cr3 (k * 4096) = some f →
    ∀ d < 1023, st.dirWord d ≠ 0 → st.table d ≠ f
  /-- no two pages share one -/
  distinct : ∀ k l f, first ≤ k → k < heapEnd → first ≤ l → l < heapEnd →
    translate st.phys st.cr3 (k * 4096) = some f →
    translate st.phys st.cr3 (l * 4096) = some f → k = l

/-- The break and the mapped heap agree: the mapped pages are those from the heap's base
up to the page of the break. -/
def BreakAgrees (st : Heap) : Prop :=
  HeapPages st.paging (st.heapBase / 4096) (st.brk / 4096 + 1)

/-! ## One page -/

/-- Page `v` was added on frame `b`. -/
structure Grown (st st' : Paging) (v b : ℕ) : Prop where
  /-- the walk still works -/
  ok : st'.Ok
  /-- the directory is the same -/
  cr3 : st'.cr3 = st.cr3
  /-- the page has a table now, the others are the same -/
  hasTable : ∀ d < 1023, st'.dirWord d ≠ 0 ↔ st.dirWord d ≠ 0 ∨ d = pdirEntry v
  /-- a table is an old one, or a frame that was free -/
  tables : ∀ d < 1023, st'.dirWord d ≠ 0 → st'.table d ≠ 0 ∧ st'.table d ≠ b * 4096 ∧
    (st.dirWord d ≠ 0 ∧ st'.table d = st.table d ∨ st.balloc.used (st'.table d / 4096) = false)
  /-- the entry of the page -/
  page : st'.entry (pdirEntry v) (ptableEntry v) = b * 4096 + 1
  /-- the other entries are as they were, or clear in a new table -/
  entries : ∀ d < 1023, ∀ j < 1024, ¬ (d = pdirEntry v ∧ j = ptableEntry v) →
    st'.dirWord d ≠ 0 → (st.dirWord d ≠ 0 ∧ st'.entry d j = st.entry d j) ∨
      (st.dirWord d = 0 ∧ st'.entry d j = 0)
  /-- what was marked stays marked -/
  marks : ∀ c, st.balloc.used c = true → st'.balloc.used c = true
  /-- and so is the frame -/
  marked : st'.balloc.used b = true
  /-- the free frames hold what they held -/
  frames : ∀ c, 0 < c → st'.balloc.used c = false → ∀ j < 1024,
    pageWord st'.phys (c * 4096) j = pageWord st.phys (c * 4096) j

/-- There is a table for page `v`, and frame `b` is taken for it. -/
structure TableReady (st st' : Paging) (v b : ℕ) : Prop where
  /-- the walk still works -/
  ok : st'.Ok
  /-- the directory is the same -/
  cr3 : st'.cr3 = st.cr3
  /-- the page has a table now, the others are the same -/
  hasTable : ∀ d < 1023, st'.dirWord d ≠ 0 ↔ st.dirWord d ≠ 0 ∨ d = pdirEntry v
  /-- a table is an old one, or a frame that was free -/
  tables : ∀ d < 1023, st'.dirWord d ≠ 0 → st'.table d ≠ 0 ∧ st'.table d ≠ b * 4096 ∧
    (st.dirWord d ≠ 0 ∧ st'.table d = st.table d ∨ st.balloc.used (st'.table d / 4096) = false)
  /-- the entries are as they were, or clear in a new table -/
  entries : ∀ d < 1023, ∀ j < 1024, st'.dirWord d ≠ 0 →
    (st.dirWord d ≠ 0 ∧ st'.entry d j = st.entry d j) ∨ (st.dirWord d = 0 ∧ st'.entry d j = 0)
  /-- what was marked stays marked -/
  marks : ∀ c, st.balloc.used c = true → st'.balloc.used c = true
  /-- and so is the frame -/
  marked : st'.balloc.used b = true
  /-- the free frames hold what they held -/
  frames : ∀ c, 0 < c → st'.balloc.used c = false → ∀ j < 1024,
    pageWord st'.phys (c * 4096) j = pageWord st.phys (c * 4096) j

section OnePage

variable {st st' : Paging} {v b t : ℕ}

/-- Setting the entry of the page in its table adds the page. -/
theorem TableReady.grown (h : TableReady st st' v b) (hv : pdirEntry v < 1023)
    (hlt : b * 4096 + 4096 ≤ 2 ^ 32) :
    Grown st (st'.setEntry (pdirEntry v) (ptableEntry v) (b * 4096 + 1)) v b := by
  have hj := Paging.ptableEntry_lt v
  have hne : st'.dirWord (pdirEntry v) ≠ 0 := (h.hasTable _ hv).mpr (.inr rfl)
  have hap := h.ok.apart _ hv hne
  have hdir := fun d (hd : d < 1024) =>
    Paging.dirWord_setEntry (w := b * 4096 + 1) h.ok.aligned hap hj hd
  have htab := fun d (hd : d < 1024) =>
    Paging.table_setEntry (w := b * 4096 + 1) h.ok.aligned hap hj hd
  have hent := fun d (hd : d < 1024) k (hk : k < 1024) =>
    Paging.entry_setEntry (w := b * 4096 + 1) h.ok.aligned hap hj hd hk
  refine ⟨h.ok.setEntry hv hne hj _, h.cr3, fun d hd => ?_, fun d hd => ?_, ?_,
    fun d hd j hj' hdj => ?_, h.marks, h.marked, fun c hc hclear j hj' => ?_⟩
  · rw [hdir d (by omega)]
    exact h.hasTable d hd
  · rw [hdir d (by omega), htab d (by omega)]
    exact h.tables d hd
  · rw [hent _ (by omega) _ hj, if_pos ⟨rfl, rfl⟩, Nat.mod_eq_of_lt (by omega)]
  · rw [hdir d (by omega), hent d (by omega) j hj']
    intro hd0
    have hnotNull := (h.tables d hd hd0).1
    rw [if_neg fun hc => hdj ⟨h.ok.distinct d hd _ hv hd0 hne hc.1 hnotNull, hc.2⟩]
    exact h.entries d hd j hj' hd0
  · -- the store goes to a table, which is not free
    change st'.balloc.used c = false at hclear
    have htable : c * 4096 ≠ st'.table (pdirEntry v) := by
      intro heq
      have hm := h.ok.tableMarked _ hv hne (h.tables _ hv hne).1
      rw [← heq, Nat.mul_div_cancel _ (by decide), hclear] at hm
      cases hm
    refine (pageWord_write32_of_ne (st'.table_aligned _) (by omega) htable hj' hj).trans ?_
    exact h.frames c hc hclear j hj'

/-- A page whose table is there. -/
theorem grown_of_table (h : st.Ok) (htables : ∀ d < 1023, st.dirWord d ≠ 0 → st.table d ≠ 0)
    (hb : st.balloc.IsNextFree b) (hv : pdirEntry v < 1023) (hne : st.dirWord (pdirEntry v) ≠ 0) :
    Grown st ((st.setBalloc (st.balloc.allocate b)).setEntry (pdirEntry v) (ptableEntry v)
      (b * 4096 + 1)) v b := by
  obtain ⟨hpos, hlt, hcr3, hbtables⟩ := h.nextFree hb
  have hready : TableReady st (st.setBalloc (st.balloc.allocate b)) v b := by
    refine ⟨h.setAllocate b, rfl, fun d hd => ?_, fun d hd hd0 => ?_, fun d hd j hj hd0 => ?_,
      fun c hc => ?_, ?_, fun c _ _ j _ => rfl⟩
    · exact ⟨.inl, fun hor => hor.elim id fun heq => heq ▸ hne⟩
    · exact ⟨htables d hd hd0, hbtables d hd hd0, .inl ⟨hd0, rfl⟩⟩
    · exact .inl ⟨hd0, rfl⟩
    · change (st.balloc.allocate b).used c = true
      rw [Balloc.used_allocate, hc, Bool.true_or]
    · change (st.balloc.allocate b).used b = true
      rw [Balloc.used_allocate, decide_eq_true rfl, Bool.or_true]
  exact hready.grown hv hlt

/-- A table that is put in an empty frame is ready. -/
theorem tableReady_addTable (h : st.Ok)
    (htables : ∀ d < 1023, st.dirWord d ≠ 0 → st.table d ≠ 0) (hb : st.balloc.IsNextFree b)
    (hv : pdirEntry v < 1023) (h0 : st.dirWord (pdirEntry v) = 0)
    (ht : (st.balloc.allocate b).IsNextFree t)
    (hblank : ∀ j < 1024, pageWord st.phys (t * 4096) j = 0) :
    TableReady st ((st.setBalloc (st.balloc.allocate b)).addTable (pdirEntry v) t) v b := by
  obtain ⟨-, -, -, hbtables⟩ := h.nextFree hb
  have hok := h.setAllocate b
  obtain ⟨htpos, -, -, -⟩ := hok.nextFree ht
  have htclear : (st.balloc.allocate b).used t = false := ht.2.clear
  rw [Balloc.used_allocate] at htclear
  obtain ⟨htfree, htb⟩ : st.balloc.used t = false ∧ t ≠ b := by
    simpa using htclear
  have ht0 : t * 4096 ≠ 0 := by omega
  have htb' : t * 4096 ≠ b * 4096 := by omega
  have hdadd := Paging.dirWord_addTable (d := pdirEntry v) hok ht
  have htadd := Paging.table_addTable (d := pdirEntry v) hok ht
  refine ⟨Paging.Ok.addTable hok hv ht, rfl, fun d hd => ?_, fun d hd => ?_,
    fun d hd j hj => ?_, fun c hc => ?_, ?_, fun c hc hclear j hj => ?_⟩
  · rw [hdadd]
    by_cases hd' : d = pdirEntry v
    · rw [if_pos hd']
      exact iff_of_true (Nat.succ_ne_zero _) (.inr hd')
    · rw [if_neg hd']
      exact ⟨.inl, fun hor => hor.resolve_right hd'⟩
  · rw [hdadd, htadd]
    by_cases hd' : d = pdirEntry v
    · rw [if_pos hd', if_pos hd', Nat.mul_div_cancel _ (by decide)]
      exact fun _ => ⟨ht0, htb', .inr htfree⟩
    · rw [if_neg hd', if_neg hd']
      exact fun hd0 => ⟨htables d hd hd0, hbtables d hd hd0, .inl ⟨hd0, rfl⟩⟩
  · rw [hdadd]
    by_cases hd' : d = pdirEntry v
    · -- the new table is empty
      rw [if_pos hd', hd', Paging.entry_addTable_self hok hv ht hj]
      exact fun _ => .inr ⟨h0, hblank j hj⟩
    · rw [if_neg hd']
      intro hd0
      rw [Paging.entry_addTable_of_ne hok hv hj hd' (h.apart d hd hd0)]
      exact .inl ⟨hd0, rfl⟩
  · change ((st.balloc.allocate b).allocate t).used c = true
    rw [Balloc.used_allocate, Balloc.used_allocate, hc, Bool.true_or, Bool.true_or]
  · change ((st.balloc.allocate b).allocate t).used b = true
    rw [Balloc.used_allocate, Balloc.used_allocate, decide_eq_true rfl, Bool.or_true, Bool.true_or]
  · -- the store goes to the directory, which is not free
    change ((st.balloc.allocate b).allocate t).used c = false at hclear
    have hccr3 : c * 4096 ≠ st.cr3 := by
      intro heq
      have hm := h.marked
      rw [← heq, Nat.mul_div_cancel _ (by decide)] at hm
      rw [Balloc.used_allocate, Balloc.used_allocate, hm] at hclear
      cases hclear
    exact pageWord_write32_of_ne h.aligned (by omega) hccr3 hj (by omega)

/-- A page whose table is missing and gets an empty frame. -/
theorem grown_of_no_table (h : st.Ok) (htables : ∀ d < 1023, st.dirWord d ≠ 0 → st.table d ≠ 0)
    (hb : st.balloc.IsNextFree b) (hv : pdirEntry v < 1023) (h0 : st.dirWord (pdirEntry v) = 0)
    (ht : (st.balloc.allocate b).IsNextFree t)
    (hblank : ∀ j < 1024, pageWord st.phys (t * 4096) j = 0) :
    Grown st (((st.setBalloc (st.balloc.allocate b)).addTable (pdirEntry v) t).setEntry
      (pdirEntry v) (ptableEntry v) (b * 4096 + 1)) v b :=
  (tableReady_addTable h htables hb hv h0 ht hblank).grown hv (h.nextFree hb).2.1

end OnePage

namespace Grown

variable {st st' : Paging} {b k m first : ℕ}

/-- The entries of a heap page lie in a table below the window. -/
theorem pdirEntry_heap (hk : k < heapEnd) : pdirEntry (k * 4096) < 1023 := by
  have hk' : k < 0xffbff := hk
  rw [pdirEntry_eq]
  omega

/-- The new page is on its frame. -/
theorem translate_self (hg : Grown st st' (m * 4096) b) (hm : m < heapEnd) :
    translate st'.phys st'.cr3 (m * 4096) = some (b * 4096) := by
  have hd := pdirEntry_heap hm
  have hne := (hg.hasTable _ hd).mpr (.inr rfl)
  have hmapped : st'.Mapped (m * 4096) := by
    refine ⟨hg.ok.present (by omega) hne, ?_⟩
    rw [hg.page, Present]
    omega
  rw [Paging.translate_of_mapped hmapped, hg.page, entryFrame_add (by omega) (by decide),
    Nat.mul_mod_left, Nat.add_zero]

/-- The other heap pages are where they were. -/
theorem translate_other (hg : Grown st st' (m * 4096) b) (h : st.Ok) (hk : k < heapEnd)
    (hkm : k ≠ m) :
    translate st'.phys st'.cr3 (k * 4096) = translate st.phys st.cr3 (k * 4096) := by
  have hd := pdirEntry_heap hk
  have hother : ¬ (pdirEntry (k * 4096) = pdirEntry (m * 4096) ∧
      ptableEntry (k * 4096) = ptableEntry (m * 4096)) := by
    rw [pdirEntry_eq, pdirEntry_eq, ptableEntry_eq, ptableEntry_eq]
    omega
  have hiff := hg.hasTable _ hd
  rw [Paging.translate_eq, Paging.translate_eq]
  by_cases hne : st'.dirWord (pdirEntry (k * 4096)) ≠ 0
  · rw [if_pos (hg.ok.present (by omega) hne)]
    obtain ⟨hne₀, hent⟩ | ⟨h0, hent⟩ := hg.entries _ hd _ (Paging.ptableEntry_lt _) hother hne
    · rw [if_pos (h.present (by omega) hne₀), hent]
    · rw [hent, h0, if_neg not_present_zero, if_neg not_present_zero]
  · have h0' := not_not.mp hne
    have h0 : st.dirWord (pdirEntry (k * 4096)) = 0 := by
      by_contra hc
      exact hne (hiff.mpr (.inl hc))
    rw [h0', h0, if_neg not_present_zero]
    rfl

/-- A heap that grows by one page is the heap up to the next page. -/
theorem heapPages (hg : Grown st st' (m * 4096) b) (h : st.Ok) (hb : st.balloc.IsNextFree b)
    (hheap : HeapPages st first m) (hm : m < heapEnd) : HeapPages st' first (m + 1) := by
  have hclear : st.balloc.used b = false := hb.2.clear
  obtain ⟨hpos, hlt, hcr3, hbtables⟩ := h.nextFree hb
  have hself := hg.translate_self hm
  have hother := fun k (hk : k < heapEnd) (hkm : k ≠ m) => hg.translate_other h hk hkm
  -- every frame of the heap is the new one or an old one
  have hframe : ∀ k f, first ≤ k → k < heapEnd →
      translate st'.phys st'.cr3 (k * 4096) = some f →
      (k = m ∧ f = b * 4096) ∨ (k ≠ m ∧ translate st.phys st.cr3 (k * 4096) = some f) := by
    intro k f hk hk' htr
    by_cases hkm : k = m
    · rw [hkm, hself] at htr
      exact .inl ⟨hkm, (Option.some.inj htr).symm⟩
    · rw [hother k hk' hkm] at htr
      exact .inr ⟨hkm, htr⟩
  -- an old frame was marked, so it is not the new one
  have hold : ∀ k f, first ≤ k → k < heapEnd → translate st.phys st.cr3 (k * 4096) = some f →
      f ≠ b * 4096 := by
    rintro k f hk hk' htr rfl
    have hmk := hheap.marked k _ hk hk' htr
    rw [Nat.mul_div_cancel _ (by decide), hclear] at hmk
    cases hmk
  refine ⟨fun k hk hk' => ?_, fun k f hk hk' htr => ?_, fun k f hk hk' htr => ?_,
    fun k f hk hk' htr => ?_, fun k f hk hk' htr d hd hne => ?_,
    fun k l f hk hk' hl hl' htr htr' => ?_⟩
  · by_cases hkm : k = m
    · rw [hkm, hself]
      exact iff_of_true (Option.some_ne_none _) (Nat.lt_succ_self m)
    · rw [hother k hk' hkm, hheap.mapped k hk hk']
      omega
  · obtain ⟨-, rfl⟩ | ⟨-, htr⟩ := hframe k f hk hk' htr
    · rw [Nat.mul_div_cancel _ (by decide)]
      exact hg.marked
    · exact hg.marks _ (hheap.marked k f hk hk' htr)
  · obtain ⟨-, rfl⟩ | ⟨-, htr⟩ := hframe k f hk hk' htr
    · exact Nat.mul_ne_zero hpos.ne' (by decide)
    · exact hheap.notNull k f hk hk' htr
  · rw [hg.cr3]
    obtain ⟨-, rfl⟩ | ⟨-, htr⟩ := hframe k f hk hk' htr
    · exact hcr3
    · exact hheap.notDirectory k f hk hk' htr
  · obtain ⟨-, htb, hwhere⟩ := hg.tables d hd hne
    obtain ⟨-, rfl⟩ | ⟨-, htr⟩ := hframe k f hk hk' htr
    · exact htb
    · obtain ⟨hne₀, htab⟩ | hfree := hwhere
      · rw [htab]
        exact hheap.notTable k f hk hk' htr d hd hne₀
      · rintro rfl
        rw [hheap.marked k _ hk hk' htr] at hfree
        cases hfree
  · obtain ⟨hkm, rfl⟩ | ⟨hkm, htr⟩ := hframe k f hk hk' htr
    · obtain ⟨hlm, -⟩ | ⟨-, htr'⟩ := hframe l _ hl hl' htr'
      · exact hkm.trans hlm.symm
      · exact absurd rfl (hold l _ hl hl' htr')
    · obtain ⟨-, rfl⟩ | ⟨-, htr'⟩ := hframe l f hl hl' htr'
      · exact absurd rfl (hold k _ hk hk' htr)
      · exact hheap.distinct k l f hk hk' hl hl' htr htr'

end Grown

/-! ## A growth -/

/-- The frames last for `count` pages from `page` on: each page gets the next free frame,
and the one after it becomes its table where there is none; that one has to be blank. -/
def Supplies (blank : ℕ → Prop) : ℕ → ℕ → (ℕ → Bool) → Balloc → Prop
  | 0, _, _, _ => True
  | count + 1, page, hasTable, balloc => ∃ b, balloc.IsNextFree b ∧
      if hasTable (page / 1024) then
        Supplies blank count (page + 1) hasTable (balloc.allocate b)
      else ∃ t, (balloc.allocate b).IsNextFree t ∧ blank t ∧
        Supplies blank count (page + 1) (Function.update hasTable (page / 1024) true)
          ((balloc.allocate b).allocate t)

/-- The free frames that the allocator finds. -/
def Balloc.scannedFree (st : Balloc) : Finset ℕ :=
  (Finset.range (32 * (st.totalBlocks / 32))).filter fun b => st.used b = false

/-- An allocation takes its frame away from them. -/
theorem Balloc.scannedFree_allocate (st : Balloc) (b : ℕ) :
    (st.allocate b).scannedFree = st.scannedFree.erase b := by
  ext c
  have htotal : (st.allocate b).totalBlocks = st.totalBlocks := rfl
  simp only [scannedFree, Finset.mem_filter, Finset.mem_range, Finset.mem_erase, htotal,
    used_allocate, Bool.or_eq_false_iff, decide_eq_false_iff_not]
  tauto

/-- While there are any, the next one can be taken. -/
theorem Balloc.exists_isNextFree {st : Balloc} (hnull : st.used 0 = true)
    (hfree : st.scannedFree.Nonempty) : ∃ b ∈ st.scannedFree, st.IsNextFree b := by
  obtain ⟨c, hc⟩ := hfree
  obtain ⟨hlt, hclear⟩ := Finset.mem_filter.mp hc
  cases hz : firstZero st.mbmp (st.totalBlocks / 32) with
  | none =>
    have hset : st.used c = true := firstZero_eq_none.mp hz c (Finset.mem_range.mp hlt)
    rw [hclear] at hset
    cases hset
  | some b =>
    have hb := firstZero_eq_some.mp hz
    have hbclear : st.used b = false := hb.clear
    refine ⟨b, Finset.mem_filter.mpr ⟨Finset.mem_range.mpr hb.lt, hbclear⟩,
      Nat.pos_of_ne_zero ?_, hb⟩
    rintro rfl
    rw [hnull] at hbclear
    cases hbclear

/-- Where the tables are there, as many pages are supplied as frames are free. -/
theorem Supplies.of_card (blank : ℕ → Prop) {hasTable : ℕ → Bool} {count page : ℕ}
    {balloc : Balloc} (htable : ∀ k, page ≤ k → k < page + count → hasTable (k / 1024) = true)
    (hnull : balloc.used 0 = true) (hcard : count ≤ balloc.scannedFree.card) :
    Supplies blank count page hasTable balloc := by
  induction count generalizing page balloc with
  | zero => trivial
  | succ count ih =>
    have hfree : balloc.scannedFree.Nonempty := Finset.card_pos.mp (by omega)
    obtain ⟨b, hmem, hb⟩ := Balloc.exists_isNextFree hnull hfree
    refine ⟨b, hb, ?_⟩
    rw [if_pos (htable page le_rfl (by omega))]
    refine ih (fun k hk hk' => htable k (by omega) (by omega)) ?_ ?_
    · rw [Balloc.used_allocate, hnull, Bool.true_or]
    · rw [Balloc.scannedFree_allocate, Finset.card_erase_of_mem hmem]
      omega

/-- What the loop relies on, with `count` pages from `page` on to go. -/
structure Growing (st : Paging) (blank : ℕ → Prop) (hasTable : ℕ → Bool) (first page count : ℕ) :
    Prop where
  /-- the walk works -/
  ok : st.Ok
  /-- no table is frame 0 -/
  tables : ∀ d < 1023, st.dirWord d ≠ 0 → st.table d ≠ 0
  /-- the heap is what it should be up to the next page -/
  heap : HeapPages st first page
  /-- the entries of the pages to come are clear -/
  clear : ∀ k, page ≤ k → k < page + count → st.dirWord (pdirEntry (k * 4096)) ≠ 0 →
    st.entry (pdirEntry (k * 4096)) (ptableEntry (k * 4096)) = 0
  /-- the free frames that count as blank are -/
  blank : ∀ t, 0 < t → st.balloc.used t = false → blank t →
    ∀ j < 1024, pageWord st.phys (t * 4096) j = 0
  /-- the tables that are there -/
  hasTable : ∀ d < 1023, hasTable d = true ↔ st.dirWord d ≠ 0

/-- What one page leaves for the next. -/
theorem Growing.next {st st' : Paging} {blank : ℕ → Prop} {hasTable : ℕ → Bool}
    {first page count b : ℕ} (hgr : Growing st blank hasTable first page (count + 1))
    (hasTable' : ℕ → Bool)
    (hb : st.balloc.IsNextFree b) (hg : Grown st st' (page * 4096) b)
    (hend : page + (count + 1) ≤ heapEnd)
    (htable : ∀ d < 1023, hasTable' d = true ↔ hasTable d = true ∨ d = page / 1024) :
    Growing st' blank hasTable' first (page + 1) count := by
  have hdir : page / 1024 = pdirEntry (page * 4096) := by
    rw [pdirEntry_eq]
    omega
  refine ⟨hg.ok, fun d hd hne => (hg.tables d hd hne).1,
    hg.heapPages hgr.ok hb hgr.heap (by omega), fun k hk hk' hne => ?_,
    fun t ht htfree hblank j hj => ?_, fun d hd => ?_⟩
  · have hd := Grown.pdirEntry_heap (show k < heapEnd by omega)
    have hother : ¬ (pdirEntry (k * 4096) = pdirEntry (page * 4096) ∧
        ptableEntry (k * 4096) = ptableEntry (page * 4096)) := by
      rw [pdirEntry_eq, pdirEntry_eq, ptableEntry_eq, ptableEntry_eq]
      omega
    obtain ⟨hne₀, hent⟩ | ⟨-, hent⟩ := hg.entries _ hd _ (Paging.ptableEntry_lt _) hother hne
    · rw [hent]
      exact hgr.clear k (by omega) (by omega) hne₀
    · exact hent
  · have hfree : st.balloc.used t = false := by
      by_contra hc
      rw [hg.marks t (by simpa using hc)] at htfree
      cases htfree
    rw [hg.frames t ht htfree j hj]
    exact hgr.blank t ht hfree hblank j hj
  · rw [htable d hd, hg.hasTable d hd, hgr.hasTable d hd, hdir]

/-- The loop maps the pages one after the other. -/
theorem allocateNewBrk_grows (blank : ℕ → Prop) (first : ℕ) : ∀ (count i page : ℕ) (st : Paging)
    (hasTable : ℕ → Bool), Growing st blank hasTable first page count →
    page + count ≤ heapEnd → Supplies blank count page hasTable st.balloc →
    ∃ st', allocateNewBrk count i (page * 4096) st = some (0, st') ∧ st'.Ok ∧
      (∀ d < 1023, st'.dirWord d ≠ 0 → st'.table d ≠ 0) ∧ HeapPages st' first (page + count)
  | 0, _, _, st, _, hgr, _, _ => ⟨st, rfl, hgr.ok, hgr.tables, hgr.heap⟩
  | count + 1, i, page, st, hasTable, hgr, hend, hsup => by
    obtain ⟨b, hb, hsup⟩ := hsup
    have hpage : page < heapEnd := by omega
    have hd := Grown.pdirEntry_heap hpage
    have hdir : page / 1024 = pdirEntry (page * 4096) := by
      rw [pdirEntry_eq]
      omega
    have hnext : (page * 4096 + 4096) % 2 ^ 32 = (page + 1) * 4096 := by
      have : page < 0xffbff := hpage
      omega
    have hv : page * 4096 < 2 ^ 32 := by
      have : page < 0xffbff := hpage
      omega
    have hok := hgr.ok.setAllocate b
    have hor : b * 4096 ||| 0x1 = b * 4096 + 1 := or_flags (Nat.mul_mod_left b 4096) (by decide)
    have hsum : page + (count + 1) = page + 1 + count := by omega
    by_cases htab : hasTable (page / 1024) = true
    · -- there is a table
      rw [if_pos htab] at hsup
      have hne : st.dirWord (pdirEntry (page * 4096)) ≠ 0 :=
        (hgr.hasTable _ hd).mp (hdir ▸ htab)
      have hclear : (st.setBalloc (st.balloc.allocate b)).entry (pdirEntry (page * 4096))
        (ptableEntry (page * 4096)) = 0 := hgr.clear page (le_refl _) (by omega) hne
      have hmap := Paging.mapBlock_of_table hok hv (hok.present (by omega) hne) (b * 4096)
      rw [if_neg (not_not_intro hclear), hor] at hmap
      have hg := grown_of_table hgr.ok hgr.tables hb hd hne
      have hnextgr := hgr.next hasTable hb hg hend fun d hd' =>
        ⟨.inl, fun hc => hc.elim id fun heq => heq ▸ htab⟩
      rw [allocateNewBrk_of_frame hgr.ok hb, hmap, Option.bind_some, hnext, hsum]
      exact allocateNewBrk_grows blank first count (i + 1) (page + 1) _ hasTable hnextgr
        (by omega) hsup
    · -- the next frame becomes the table
      rw [if_neg htab] at hsup
      obtain ⟨t, ht, hblank, hsup⟩ := hsup
      have h0 : st.dirWord (pdirEntry (page * 4096)) = 0 := by
        by_contra hne
        exact htab (hdir ▸ (hgr.hasTable _ hd).mpr hne)
      have htpos := (hok.nextFree ht).1
      have htfree : st.balloc.used t = false := by
        have hclear : (st.balloc.allocate b).used t = false := ht.2.clear
        rw [Balloc.used_allocate] at hclear
        exact (Bool.or_eq_false_iff.mp hclear).1
      have hzero := hgr.blank t htpos htfree hblank
      have hword : pageWord (st.setBalloc (st.balloc.allocate b)).phys (t * 4096)
        (ptableEntry (page * 4096)) = 0 := hzero _ (Paging.ptableEntry_lt _)
      have hmap := Paging.mapBlock_of_frame hok hv h0 ht (b * 4096)
      rw [if_neg (not_not_intro hword), hor] at hmap
      have hg := grown_of_no_table hgr.ok hgr.tables hb hd h0 ht hzero
      have hnextgr := hgr.next (Function.update hasTable (page / 1024) true) hb hg hend
        fun d hd' => by
          rw [Function.update_apply]
          by_cases hdp : d = page / 1024
          · simp [hdp]
          · simp [hdp]
      rw [allocateNewBrk_of_frame hgr.ok hb, hmap, Option.bind_some, hnext, hsum]
      exact allocateNewBrk_grows blank first count (i + 1) (page + 1) _ _ hnextgr (by omega) hsup

/-! ## Runs -/

/-- The pages up to the break at `addr` can be added: nothing is left over in their
entries, and the free frames last, the blank ones for the missing tables. -/
structure GrowthSupplied (st : Heap) (addr : ℕ) : Prop where
  /-- the entries are clear -/
  entries : ∀ k, st.firstPage ≤ k → k < st.firstPage + st.pageCount addr →
    st.paging.dirWord (pdirEntry (k * 4096)) ≠ 0 →
    st.paging.entry (pdirEntry (k * 4096)) (ptableEntry (k * 4096)) = 0
  /-- the frames last -/
  frames : Supplies (fun t => ∀ j < 1024, pageWord st.paging.phys (t * 4096) j = 0)
    (st.pageCount addr) st.firstPage (fun d => decide (st.paging.dirWord d ≠ 0)) st.paging.balloc

/-- The calls that work: those below the heap, which are refused, those that stay in the
page of the break, and those that raise it over pages that are supplied. -/
def CallSupplied (st : Heap) (c : HeapCall) : Prop :=
  c.target st < kernelStackMapping ∧
    (c.target st < st.heapBase ∨
      (st.brk ≠ 0 ∧ c.target st / 4096 = st.brk / 4096) ∨
      (0 < st.pageCount (c.target st) ∧ GrowthSupplied st (c.target st)))

/-- Before the first call: no break, and no page of the heap is mapped. -/
structure HeapStart (st : Heap) : Prop where
  /-- the walk works, and the heap starts at a page -/
  ok : st.Ok
  /-- no table is frame 0 -/
  tables : ∀ d < 1023, st.paging.dirWord d ≠ 0 → st.paging.table d ≠ 0
  /-- there is no break yet -/
  fresh : st.brk = 0
  /-- no heap page is mapped -/
  unmapped : ∀ k, st.heapBase / 4096 ≤ k → k < heapEnd →
    translate st.paging.phys st.paging.cr3 (k * 4096) = none

/-- What every call that works keeps. -/
structure HeapInv (st : Heap) : Prop where
  /-- the walk works -/
  ok : st.Ok
  /-- no table is frame 0 -/
  tables : ∀ d < 1023, st.paging.dirWord d ≠ 0 → st.paging.table d ≠ 0
  /-- the break is below the stack -/
  below : st.brk < kernelStackMapping
  /-- the break and the mapped heap agree -/
  agrees : BreakAgrees st

theorem HeapStart.inv {st : Heap} (h : HeapStart st) : HeapInv st := by
  have hpos := h.ok.positive
  have halign := h.ok.aligned
  have hnone : ∀ k f, st.heapBase / 4096 ≤ k → k < heapEnd →
      translate st.paging.phys st.paging.cr3 (k * 4096) ≠ some f := by
    intro k f hk hk' htr
    rw [h.unmapped k hk hk'] at htr
    cases htr
  refine ⟨h.ok, h.tables, by rw [h.fresh]; decide, fun k hk hk' => ?_,
    fun k f hk hk' htr => absurd htr (hnone k f hk hk'),
    fun k f hk hk' htr => absurd htr (hnone k f hk hk'),
    fun k f hk hk' htr => absurd htr (hnone k f hk hk'),
    fun k f hk hk' htr => absurd htr (hnone k f hk hk'),
    fun k l f hk hk' _ _ htr => absurd htr (hnone k f hk hk')⟩
  rw [h.unmapped k hk hk', h.fresh]
  exact iff_of_false (fun hc => hc rfl) (by omega)

theorem HeapInv.setErrno {st : Heap} (h : HeapInv st) (e : ℕ) : HeapInv (st.setErrno e) :=
  ⟨h.ok.setErrno e, h.tables, h.below, h.agrees.mapped, h.agrees.marked, h.agrees.notNull,
    h.agrees.notDirectory, h.agrees.notTable, h.agrees.distinct⟩

/-- The heap is what it should be up to the first page of a growth. -/
theorem HeapInv.heapPages {st : Heap} (h : HeapInv st) :
    HeapPages st.paging (st.heapBase / 4096) st.firstPage := by
  have hpos := h.ok.positive
  have halign := h.ok.aligned
  have hagrees := h.agrees
  rw [Heap.firstPage]
  by_cases hbrk : st.brk = 0
  · rw [if_pos hbrk]
    rw [BreakAgrees, hbrk] at hagrees
    refine ⟨fun k hk hk' => ?_, hagrees.marked, hagrees.notNull, hagrees.notDirectory,
      hagrees.notTable, hagrees.distinct⟩
    rw [hagrees.mapped k hk hk']
    omega
  · rw [if_neg hbrk]
    exact hagrees

/-- One call of `brk` that works. -/
theorem HeapInv.brk {st : Heap} (h : HeapInv st) {addr : ℕ} (hc : CallSupplied st (.brk addr)) :
    ∃ r st', MissyKernel.brk st addr = some (r, st') ∧ HeapInv st' := by
  have hpos := h.ok.positive
  have halign := h.ok.aligned
  have habove := h.ok.above
  have haddr : addr < 2 ^ 32 := lt_trans hc.1 (by decide)
  obtain ⟨hbelow, hlow | ⟨hbrk, hpage⟩ | ⟨hcount, hsup⟩⟩ := hc
  · exact ⟨_, _, brk_of_below h.ok.positive.ne' hlow, h.setErrno enomem⟩
  · -- the break moves within its page
    change addr / 4096 = st.brk / 4096 at hpage
    have hle : st.heapBase ≤ addr := by omega
    have hcall := brk_of_same_page hpos hle haddr hbrk h.ok.below hpage
    refine ⟨_, _, hcall, h.ok.brk haddr hcall, h.tables, hbelow, ?_⟩
    have hagrees := h.agrees
    rw [BreakAgrees, ← hpage] at hagrees
    exact hagrees
  · -- the pages up to the new break are added
    change 0 < st.pageCount addr at hcount
    have hfirst : st.firstPage + st.pageCount addr = addr / 4096 + 1 := by
      rw [Heap.pageCount] at hcount ⊢
      omega
    have hle : st.heapBase ≤ addr := by
      rw [Heap.pageCount, Heap.firstPage] at hcount
      split at hcount <;> omega
    have hend : st.firstPage + st.pageCount addr ≤ heapEnd := by
      have hlt : addr < 0xffbff000 := hbelow
      change _ ≤ 0xffbff
      omega
    have hgr : Growing st.paging (fun t => ∀ j < 1024, pageWord st.paging.phys (t * 4096) j = 0)
        (fun d => decide (st.paging.dirWord d ≠ 0)) (st.heapBase / 4096) st.firstPage
        (st.pageCount addr) :=
      ⟨h.ok.paging, h.tables, h.heapPages, hsup.entries, fun _ _ _ hblank => hblank,
        fun d _ => decide_eq_true_iff⟩
    obtain ⟨paging, hloop, hok, htables, hheap⟩ :=
      allocateNewBrk_grows _ _ _ 0 _ _ _ hgr hend hsup.frames
    have hcall := brk_of_growth hpos halign hle haddr h.ok.below habove hcount
    rw [hloop] at hcall
    refine ⟨0, { st with paging := paging, brk := addr }, hcall, h.ok.brk haddr hcall, htables,
      hbelow, ?_⟩
    rw [hfirst] at hheap
    exact hheap

/-- One call that works. -/
theorem HeapInv.run {st : Heap} (h : HeapInv st) {c : HeapCall} (hc : CallSupplied st c) :
    ∃ ok st', c.run st = some (ok, st') ∧ HeapInv st' := by
  cases c with
  | brk addr =>
    obtain ⟨r, st', hcall, hinv⟩ := h.brk hc
    exact ⟨_, st', Option.map_eq_some_iff.mpr ⟨_, hcall, rfl⟩, hinv⟩
  | sbrk increment =>
    by_cases h0 : increment = 0
    · exact ⟨_, st, Option.map_eq_some_iff.mpr ⟨_, if_pos h0, rfl⟩, h⟩
    · have hc' : CallSupplied st (.brk (sbrkTarget st increment)) := hc
      obtain ⟨r, st', hcall, hinv⟩ := h.brk hc'
      by_cases hr : r = 0
      · refine ⟨_, st', Option.map_eq_some_iff.mpr ⟨(st.brk, st'), ?_, rfl⟩, hinv⟩
        rw [sbrk, if_neg h0, hcall]
        exact if_neg (not_not_intro hr)
      · refine ⟨_, _, Option.map_eq_some_iff.mpr ⟨(0xffffffff, st'.setErrno enomem), ?_, rfl⟩,
          hinv.setErrno enomem⟩
        rw [sbrk, if_neg h0, hcall]
        exact if_pos hr

/-- The invariant over a run of calls that work. -/
theorem HeapReach.inv {start st : Heap} (h : HeapReach CallSupplied start st)
    (hstart : HeapInv start) : HeapInv st := by
  induction h with
  | start => exact hstart
  | @call st₁ st₂ c ok _ hc hrun ih =>
    obtain ⟨ok', st', hrun', hinv⟩ := ih.run hc
    rw [hrun] at hrun'
    cases hrun'
    exact hinv

/-- **The break and the mapped heap agree.** In every run whose calls are refused, stay in a page,
or raise the break over pages that are supplied, every call returns, and after it the mapped heap
pages are exactly those up to the break.

The invariant `HeapInv` says besides that the tables can be walked and that no table is frame 0. A
growth keeps it page by page: each page that is added takes the next free frame, and the next table
the one after, as the plan says. -/
theorem break_agrees (start st : Heap) (c : HeapCall) (hstart : HeapStart start)
    (hreach : HeapReach CallSupplied start st) (hc : CallSupplied st c) :
    ∃ ok st', c.run st = some (ok, st') ∧ BreakAgrees st' := by
  obtain ⟨ok, st', hrun, hinv⟩ := (hreach.inv hstart.inv).run hc
  exact ⟨ok, st', hrun, hinv.agrees⟩

/-- A heap at four megabytes over the directory that maps nothing else. -/
def loneHeap : Heap where
  paging := loneDirectory
  brk := 0
  heapBase := 0x400000

/-- A heap in a part of the address space that has no tables can start. -/
theorem heapStart_of_lone {st : Heap} (h : st.Ok) (hphys : st.paging.phys = loneDirectory.phys)
    (hcr3 : st.paging.cr3 = loneDirectory.cr3) (hbrk : st.brk = 0) : HeapStart st := by
  have hdir : ∀ d < 1023, st.paging.dirWord d = 0 := fun d hd => by
    rw [Paging.dirWord, hphys, hcr3]
    exact (loneDirectory_dirWord d).trans (if_neg (by omega))
  refine ⟨h, fun d hd hne => absurd (hdir d hd) hne, hbrk, fun k _ hk => ?_⟩
  rw [Paging.translate_eq, hdir _ (Grown.pdirEntry_heap hk), if_neg not_present_zero]

/-- One page is supplied, and mapped. -/
theorem loneHeap_agrees :
    ∃ ok st', (HeapCall.brk 0x400000).run loneHeap = some (ok, st') ∧ BreakAgrees st' := by
  have hok : loneHeap.Ok := ⟨loneDirectory_ok, by decide, by decide, .inl rfl, by decide⟩
  refine break_agrees loneHeap loneHeap (.brk 0x400000) (heapStart_of_lone hok rfl rfl rfl) .start
    ⟨by decide, .inr (.inr ⟨by decide, ⟨fun k hk hk' hne => ?_, ?_⟩⟩)⟩
  · have hfirst : loneHeap.firstPage + loneHeap.pageCount 0x400000 = 0x401 := by decide
    change k < loneHeap.firstPage + loneHeap.pageCount 0x400000 at hk'
    rw [hfirst] at hk'
    refine absurd ((loneDirectory_dirWord _).trans (if_neg ?_)) hne
    rw [pdirEntry_eq]
    omega
  · have hcount : loneHeap.pageCount 0x400000 = 1 := by decide
    change Supplies _ (loneHeap.pageCount 0x400000) _ _ _
    rw [hcount]
    refine ⟨8, ⟨by decide, by decide, by decide, by decide⟩, ?_⟩
    have hno : (fun d => decide (loneHeap.paging.dirWord d ≠ 0)) (loneHeap.firstPage / 1024) ≠
        true := by
      have h0 : loneHeap.paging.dirWord (loneHeap.firstPage / 1024) = 0 := loneDirectory_dirWord 1
      simp [h0]
    rw [if_neg hno]
    refine ⟨9, ⟨by decide, by decide, by decide, by decide⟩, fun j hj => ?_, trivial⟩
    exact (Mem.read32_write32_of_disjoint (by omega)).trans rfl

/-- On a machine without a free frame, the first page is reported as mapped and is not. -/
theorem exhaustedHeap_disagrees : HeapStart exhaustedHeap ∧
    ∃ st', (HeapCall.brk 0x400000).run exhaustedHeap = some (true, st') ∧ ¬ BreakAgrees st' := by
  have hok := exhaustedHeap_ok
  have hstart := heapStart_of_lone hok rfl rfl rfl
  have h0 : exhaustedHeap.paging.dirWord (pdirEntry 0x400000) = 0 := loneDirectory_dirWord 1
  have hcount : exhaustedHeap.pageCount 0x400000 = 0 + 1 := by decide
  -- the loop goes on with frame 0, which is not mapped for want of a table
  obtain ⟨e, hround⟩ := allocateNewBrk_of_none_first 0 0x400000 exhaustedHeap_none
  obtain ⟨e', hmap⟩ := Paging.mapBlock_of_no_frame (hok.paging.setErrno e)
    (show 0x400000 < 2 ^ 32 by decide) h0 exhaustedHeap_none 0
  have hcall : brk exhaustedHeap 0x400000 = some (0, { exhaustedHeap with
      paging := exhaustedHeap.paging.setErrno e', brk := 0x400000 }) := by
    rw [brk_of_growth (by decide) (by decide) (by decide) (by decide) (by decide) (.inl rfl)
      (by decide), hcount]
    change (allocateNewBrk (0 + 1) 0 0x400000 exhaustedHeap.paging).bind _ = _
    rw [hround, hmap]
    rfl
  refine ⟨hstart, _, by rw [HeapCall.run, hcall]; rfl, fun hagrees => ?_⟩
  have hmapped := (hagrees.mapped 0x400 (show 0x400000 / 4096 ≤ 0x400 by decide)
    (by decide)).mpr (show 0x400 < (0x400000 / 4096 + 1) by decide)
  exact hmapped (hstart.unmapped 0x400 (by decide) (by decide))

end MissyKernel
