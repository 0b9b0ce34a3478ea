import MissyKernel.BootTables

/-!
# Mapping pages in the running kernel (`pagemngr.c`)

With paging on, the tables are reached through virtual addresses only: table `d`
at `0xffc00000 + d * 4096`, the directory at `0xfffff000`. A load or a store walks
the tables it is about to change, so each of them may fault; `none` is a fault.

`Paging.Ok` is what the walk relies on: the directory ends in itself, its other
entries are empty or point at tables of their own. Under it an access through the
window is an access to an entry (`load_entry`, `store_entry`), and the two
functions come down to one or two entries set (`mapBlock_of_table`,
`mapBlock_of_no_table`, `unmapBlock_cases`).

The translation lookaside buffer is not part of the model: it is taken to agree with the tables
at every access. In the code it need not. The operand that `invalidate_page` gives to `invlpg` is
its own parameter on the stack, so that the page of the stack is invalidated and not the one it
was called for; and the window page of a table that is given back is never invalidated. So the
results are about what the tables in memory say.
-/

namespace MissyKernel

/-- `PAGE_DIRECTORY_VIRTUAL_BASE`, the value of `_page_directory_virtual` -/
def pageDirectoryVirtualBase : ℕ := 0xfffff000

/-- `PAGE_TABLE_VIRTUAL_BASE` -/
def pageTableVirtualBase : ℕ := 0xffc00000

/-- Physical memory, the page directory base register and the frame allocator. -/
structure Paging : Type where
  /-- physical memory -/
  phys : Mem
  /-- the page directory base register -/
  cr3 : ℕ
  /-- the statics of `balloc.c` -/
  balloc : Balloc

namespace Paging

/-- Load the word at a virtual address. -/
def load (st : Paging) (va : ℕ) : Option ℕ :=
  (translate st.phys st.cr3 va).map st.phys.read32

/-- Store a word at a virtual address. -/
def store (st : Paging) (va w : ℕ) : Option Paging :=
  (translate st.phys st.cr3 va).map fun pa => { st with phys := st.phys.write32 pa w }

/-- Replace the statics of `balloc.c`. -/
def setBalloc (st : Paging) (balloc : Balloc) : Paging := { st with balloc := balloc }

/-- The second half of `pagemngr_map_block`, once there is a table: the entry is
written unless there is something in it. -/
def mapEntry (st : Paging) (physical virtual : ℕ) : Option (ℤ × Paging) := do
  let entry := pageTableVirtualBase + pdirEntry virtual * 4096 + 4 * ptableEntry virtual
  let old ← st.load entry
  if old ≠ 0 then some (-1, st)
  else
    let st ← st.store entry (physical ||| 0x1)
    some (0, st)

/-- The scan for an entry that is in use: the first such index from `i` on, or the
index behind the last one. -/
def firstUsedEntry (st : Paging) (table : ℕ) : ℕ → ℕ → Option ℕ
  | 0, i => some i
  | rest + 1, i => do
    let word ← st.load (table + 4 * i)
    if word > 0 then some i else firstUsedEntry st table rest (i + 1)

end Paging

/-- `pagemngr_map_block` -/
def pagemngrMapBlock (st : Paging) (physical virtual : ℕ) : Option (ℤ × Paging) := do
  let directoryEntry := pageDirectoryVirtualBase + 4 * pdirEntry virtual
  let word ← st.load directoryEntry
  if word = 0 then
    let (newPageTable, balloc) := ballocAllocateBlock st.balloc
    let st := st.setBalloc balloc
    if newPageTable = 0 then some (-1, st)
    else
      let st ← st.store directoryEntry (newPageTable ||| 0x1)
      st.mapEntry physical virtual
  else st.mapEntry physical virtual

/-- `pagemngr_unmap_block`: the physical address, or 0 for `NULL`. -/
def pagemngrUnmapBlock (st : Paging) (virtual : ℕ) : Option (ℕ × Paging) := do
  let directoryEntry := pageDirectoryVirtualBase + 4 * pdirEntry virtual
  let word ← st.load directoryEntry
  if word &&& 0x1 ≠ 0 then
    let table := pageTableVirtualBase + pdirEntry virtual * 4096
    let word ← st.load (table + 4 * ptableEntry virtual)
    if word &&& 0x1 ≠ 0 then
      let physical := word &&& 0xfff
      let st ← st.store (table + 4 * ptableEntry virtual) 0
      let i ← st.firstUsedEntry table 1024 0
      if i ≥ 1024 then
        -- the table is empty: its frame is given back
        let word ← st.load directoryEntry
        let st := st.setBalloc (ballocDeallocateBlock st.balloc word)
        let st ← st.store directoryEntry 0
        some (physical, st)
      else some (physical, st)
    else some (0, st)
  else some (0, st)

namespace Paging

/-! ## The tables -/

/-- Entry `d` of the directory. -/
def dirWord (st : Paging) (d : ℕ) : ℕ := pageWord st.phys st.cr3 d

/-- The frame of table `d`. -/
def table (st : Paging) (d : ℕ) : ℕ := entryFrame (st.dirWord d)

/-- Entry `j` of table `d`. -/
def entry (st : Paging) (d j : ℕ) : ℕ := pageWord st.phys (st.table d) j

/-- Table `d` has no entry in use. -/
def TableEmpty (st : Paging) (d : ℕ) : Prop := ∀ j < 1024, st.entry d j = 0

/-- Set entry `d` of the directory. -/
def setDir (st : Paging) (d w : ℕ) : Paging :=
  { st with phys := st.phys.write32 (st.cr3 + 4 * d) w }

/-- Set entry `j` of table `d`. -/
def setEntry (st : Paging) (d j w : ℕ) : Paging :=
  { st with phys := st.phys.write32 (st.table d + 4 * j) w }

/-- What the walk relies on. -/
structure Ok (st : Paging) : Prop where
  /-- the directory is a page of its own -/
  aligned : st.cr3 % 4096 = 0
  /-- its frame is not frame 0 -/
  notNull : st.cr3 ≠ 0
  /-- and is marked -/
  marked : st.balloc.used (st.cr3 / 4096) = true
  /-- its last entry points at itself -/
  recursive : Recursive st.phys st.cr3
  /-- the other entries are empty or present -/
  presence : ∀ d < 1023, st.dirWord d = 0 ∨ Present (st.dirWord d)
  /-- no table is the directory -/
  apart : ∀ d < 1023, st.dirWord d ≠ 0 → st.table d ≠ st.cr3
  /-- tables lie in marked frames; the C code also makes a table of frame 0 -/
  tableMarked : ∀ d < 1023, st.dirWord d ≠ 0 → st.table d ≠ 0 →
    st.balloc.used (st.table d / 4096) = true
  /-- no two tables share a frame -/
  distinct : ∀ d < 1023, ∀ e < 1023, st.dirWord d ≠ 0 → st.dirWord e ≠ 0 →
    st.table d = st.table e → st.table d ≠ 0 → d = e
  /-- block numbers have 20 bits -/
  blocks : st.balloc.totalBlocks ≤ 2 ^ 20

variable {st : Paging} {d e j k p v w : ℕ}

theorem table_aligned (st : Paging) (d : ℕ) : st.table d % 4096 = 0 := entryFrame_aligned _

theorem translate_eq (st : Paging) (v : ℕ) :
    translate st.phys st.cr3 v =
      if Present (st.dirWord (pdirEntry v)) then
        if Present (st.entry (pdirEntry v) (ptableEntry v)) then
          some (entryFrame (st.entry (pdirEntry v) (ptableEntry v)) + v % 4096)
        else none
      else none := by
  rw [pdirEntry_eq, ptableEntry_eq]
  rfl

/-- The window shows table `d` at its page. -/
theorem translate_entry (hr : Recursive st.phys st.cr3) (hd : d < 1024) (hj : j < 1024)
    (hp : Present (st.dirWord d)) :
    translate st.phys st.cr3 (pageTableVirtualBase + d * 4096 + 4 * j) =
      some (st.table d + 4 * j) :=
  translate_window hr hd (by omega) hp

theorem load_entry (hr : Recursive st.phys st.cr3) (hd : d < 1024) (hj : j < 1024)
    (hp : Present (st.dirWord d)) :
    st.load (pageTableVirtualBase + d * 4096 + 4 * j) = some (st.entry d j) := by
  rw [load, translate_entry hr hd hj hp]
  rfl

theorem store_entry (hr : Recursive st.phys st.cr3) (hd : d < 1024) (hj : j < 1024)
    (hp : Present (st.dirWord d)) (w : ℕ) :
    st.store (pageTableVirtualBase + d * 4096 + 4 * j) w = some (st.setEntry d j w) := by
  rw [store, translate_entry hr hd hj hp]
  rfl

/-- The directory is table 1023. -/
theorem table_last (hr : Recursive st.phys st.cr3) : st.table 1023 = st.cr3 := hr.2

theorem load_dir (hr : Recursive st.phys st.cr3) (hd : d < 1024) :
    st.load (pageDirectoryVirtualBase + 4 * d) = some (st.dirWord d) := by
  have h := load_entry hr (show 1023 < 1024 by decide) hd hr.1
  rw [entry, table_last hr] at h
  exact h

theorem store_dir (hr : Recursive st.phys st.cr3) (hd : d < 1024) (w : ℕ) :
    st.store (pageDirectoryVirtualBase + 4 * d) w = some (st.setDir d w) := by
  have h := store_entry hr (show 1023 < 1024 by decide) hd hr.1 w
  rw [setEntry, table_last hr] at h
  exact h

theorem store_dir_setBalloc (hr : Recursive st.phys st.cr3) (hd : d < 1024) (balloc : Balloc)
    (w : ℕ) : (st.setBalloc balloc).store (pageDirectoryVirtualBase + 4 * d) w =
      some ((st.setBalloc balloc).setDir d w) := by
  have hr' : Recursive (st.setBalloc balloc).phys (st.setBalloc balloc).cr3 := hr
  exact store_dir hr' hd w

/-- The scan finds an entry in use exactly when there is one. -/
theorem firstUsedEntry_eq (hr : Recursive st.phys st.cr3) (hd : d < 1024)
    (hp : Present (st.dirWord d)) :
    ∀ (n i : ℕ), i + n = 1024 →
      ∃ k, st.firstUsedEntry (pageTableVirtualBase + d * 4096) n i = some k ∧
        (1024 ≤ k ↔ ∀ j, i ≤ j → j < 1024 → st.entry d j = 0)
  | 0, i, hi => ⟨i, rfl, iff_of_true (by omega) fun j hj hj' => absurd hj' (by omega)⟩
  | n + 1, i, hi => by
    have hload := load_entry hr hd (show i < 1024 by omega) hp
    by_cases hw : st.entry d i > 0
    · refine ⟨i, ?_, iff_of_false (by omega) fun h => ?_⟩
      · rw [firstUsedEntry, hload]
        exact if_pos hw
      · have := h i (le_refl i) (by omega)
        omega
    · obtain ⟨k, hk, hiff⟩ := firstUsedEntry_eq hr hd hp n (i + 1) (by omega)
      refine ⟨k, ?_, hiff.trans ⟨fun h j hj hj' => ?_, fun h j hj hj' => h j (by omega) hj'⟩⟩
      · rw [firstUsedEntry, hload]
        exact (if_neg hw).trans hk
      · rcases Nat.eq_or_lt_of_le hj with rfl | hlt
        · omega
        · exact h j (by omega) hj'

/-! ## What setting an entry changes -/

theorem dirWord_setDir (st : Paging) (d w e : ℕ) :
    (st.setDir d w).dirWord e = if e = d then w % 2 ^ 32 else st.dirWord e :=
  pageWord_write32_self st.phys st.cr3 e d w

theorem table_setDir (st : Paging) (d w e : ℕ) :
    (st.setDir d w).table e = if e = d then entryFrame (w % 2 ^ 32) else st.table e := by
  rw [table, dirWord_setDir, apply_ite entryFrame]
  rfl

/-- The directory's entries are no entries of other tables. -/
theorem entry_setDir (ha : st.cr3 % 4096 = 0) (hd : d < 1024) (hk : k < 1024) (hed : e ≠ d)
    (hne : st.table e ≠ st.cr3) : (st.setDir d w).entry e k = st.entry e k := by
  rw [entry, table_setDir, if_neg hed]
  exact pageWord_write32_of_ne ha (st.table_aligned e) hne hk hd

theorem setEntry_last (hr : Recursive st.phys st.cr3) (j w : ℕ) :
    st.setEntry 1023 j w = st.setDir j w := by
  rw [setEntry, table_last hr, setDir]

theorem dirWord_setEntry (ha : st.cr3 % 4096 = 0) (hne : st.table d ≠ st.cr3) (hj : j < 1024)
    (he : e < 1024) : (st.setEntry d j w).dirWord e = st.dirWord e :=
  pageWord_write32_of_ne (st.table_aligned d) ha hne.symm he hj

theorem table_setEntry (ha : st.cr3 % 4096 = 0) (hne : st.table d ≠ st.cr3) (hj : j < 1024)
    (he : e < 1024) : (st.setEntry d j w).table e = st.table e := by
  rw [table, dirWord_setEntry ha hne hj he]
  rfl

theorem entry_setEntry (ha : st.cr3 % 4096 = 0) (hne : st.table d ≠ st.cr3) (hj : j < 1024)
    (he : e < 1024) (hk : k < 1024) :
    (st.setEntry d j w).entry e k =
      if st.table e = st.table d ∧ k = j then w % 2 ^ 32 else st.entry e k := by
  rw [entry, table_setEntry ha hne hj he]
  by_cases hed : st.table e = st.table d
  · rw [hed, setEntry]
    rw [pageWord_write32_self]
    by_cases hkj : k = j
    · rw [if_pos hkj, if_pos ⟨rfl, hkj⟩]
    · rw [if_neg hkj, if_neg fun h => hkj h.2, entry, hed]
  · rw [if_neg fun h => hed h.1]
    exact pageWord_write32_of_ne (st.table_aligned d) (st.table_aligned e) hed hk hj

namespace Ok

variable (h : st.Ok)
include h

theorem present (hd : d < 1024) (hne : st.dirWord d ≠ 0) : Present (st.dirWord d) := by
  by_cases hd' : d < 1023
  · exact (h.presence d hd').resolve_left hne
  · rw [show d = 1023 by omega]
    exact h.recursive.1

theorem setEntry (hd : d < 1023) (hne : st.dirWord d ≠ 0) (hj : j < 1024) (w : ℕ) :
    (st.setEntry d j w).Ok := by
  have hap := h.apart d hd hne
  have hdir : ∀ e < 1024, (st.setEntry d j w).dirWord e = st.dirWord e := fun e he =>
    dirWord_setEntry h.aligned hap hj he
  have htab : ∀ e < 1024, (st.setEntry d j w).table e = st.table e := fun e he =>
    table_setEntry h.aligned hap hj he
  refine ⟨h.aligned, h.notNull, h.marked, ?_, fun e he => ?_, fun e he => ?_, fun e he => ?_,
    fun e he f hf => ?_, h.blocks⟩
  · have h1023 := hdir 1023 (by decide)
    rw [dirWord] at h1023
    rw [Recursive, h1023]
    exact h.recursive
  · rw [hdir e (by omega)]
    exact h.presence e he
  · rw [hdir e (by omega), htab e (by omega)]
    exact h.apart e he
  · rw [hdir e (by omega), htab e (by omega)]
    exact h.tableMarked e he
  · rw [hdir e (by omega), htab e (by omega), hdir f (by omega), htab f (by omega)]
    exact h.distinct e he f hf

/-- An entry of the directory may become any table that no other entry uses. -/
theorem setDir (hd : d < 1023) {f : ℕ} (hw : w < 2 ^ 32) (hf : entryFrame w = f)
    (hword : w = 0 ∨ Present w) (hap : w ≠ 0 → f ≠ st.cr3)
    (hmarked : w ≠ 0 → f ≠ 0 → st.balloc.used (f / 4096) = true)
    (hfresh : w ≠ 0 → f ≠ 0 → ∀ e < 1023, e ≠ d → st.dirWord e ≠ 0 → st.table e ≠ f) :
    (st.setDir d w).Ok := by
  have hdir : ∀ e, (st.setDir d w).dirWord e = if e = d then w else st.dirWord e := by
    intro e
    rw [dirWord_setDir, Nat.mod_eq_of_lt hw]
  have htab : ∀ e, (st.setDir d w).table e = if e = d then f else st.table e := by
    intro e
    rw [table_setDir, Nat.mod_eq_of_lt hw, hf]
  refine ⟨h.aligned, h.notNull, h.marked, ?_, fun e he => ?_, fun e he => ?_, fun e he => ?_,
    fun e he g hg => ?_, h.blocks⟩
  · have h1023 := hdir 1023
    rw [if_neg (by omega), dirWord] at h1023
    rw [Recursive, h1023]
    exact h.recursive
  · rw [hdir e]
    by_cases hed : e = d
    · rw [if_pos hed]
      exact hword
    · rw [if_neg hed]
      exact h.presence e he
  · rw [hdir e, htab e]
    by_cases hed : e = d
    · rw [if_pos hed, if_pos hed]
      exact hap
    · rw [if_neg hed, if_neg hed]
      exact h.apart e he
  · rw [hdir e, htab e]
    by_cases hed : e = d
    · rw [if_pos hed, if_pos hed]
      exact hmarked
    · rw [if_neg hed, if_neg hed]
      exact h.tableMarked e he
  · rw [hdir e, htab e, hdir g, htab g]
    by_cases hed : e = d
    · by_cases hgd : g = d
      · exact fun _ _ _ _ => hed.trans hgd.symm
      · rw [if_pos hed, if_pos hed, if_neg hgd, if_neg hgd]
        exact fun hw0 hg0 heq hf0 => absurd heq.symm (hfresh hw0 hf0 g hg hgd hg0)
    · by_cases hgd : g = d
      · rw [if_neg hed, if_neg hed, if_pos hgd, if_pos hgd]
        exact fun he0 hw0 heq hf0 => absurd heq (hfresh hw0 (heq ▸ hf0) e he hed he0)
      · rw [if_neg hed, if_neg hed, if_neg hgd, if_neg hgd]
        exact h.distinct e he g hg

/-- The allocator may change as long as the directory and the tables stay marked. -/
theorem setBalloc {balloc : Balloc} (htotal : balloc.totalBlocks = st.balloc.totalBlocks)
    (hm : balloc.used (st.cr3 / 4096) = true)
    (ht : ∀ d < 1023, st.dirWord d ≠ 0 → st.table d ≠ 0 →
      balloc.used (st.table d / 4096) = true) :
    (st.setBalloc balloc).Ok :=
  ⟨h.aligned, h.notNull, hm, h.recursive, h.presence, h.apart, ht, h.distinct,
    htotal.trans_le h.blocks⟩

/-- A frame that can be taken is neither the directory nor a table. -/
theorem nextFree {b : ℕ} (hb : st.balloc.IsNextFree b) :
    0 < b ∧ b * 4096 + 4096 ≤ 2 ^ 32 ∧ b * 4096 ≠ st.cr3 ∧
      ∀ d < 1023, st.dirWord d ≠ 0 → st.table d ≠ b * 4096 := by
  obtain ⟨hpos, hfirst⟩ := hb
  have hlt := hfirst.lt
  have hblocks := h.blocks
  have hclear : st.balloc.used b = false := hfirst.clear
  refine ⟨hpos, by omega, fun hcr3 => ?_, fun d hd hne htab => ?_⟩
  · have hm := h.marked
    rw [← hcr3, Nat.mul_div_cancel _ (by decide), hclear] at hm
    cases hm
  · have hm := h.tableMarked d hd hne (by omega)
    rw [htab, Nat.mul_div_cancel _ (by decide), hclear] at hm
    cases hm

end Ok

/-! ## Mapping -/

/-- Take frame `b` for table `d`. -/
def addTable (st : Paging) (d b : ℕ) : Paging :=
  (st.setBalloc (st.balloc.allocate b)).setDir d (b * 4096 + 1)

section AddTable

variable {b : ℕ} (h : st.Ok) (hd : d < 1023) (hb : st.balloc.IsNextFree b)
include h

theorem entry_addTable_of_ne (hd : d < 1023) {k : ℕ} (hk : k < 1024) (hed : e ≠ d)
    (hne : st.table e ≠ st.cr3) : (st.addTable d b).entry e k = st.entry e k := by
  have hba : (st.setBalloc (st.balloc.allocate b)).cr3 % 4096 = 0 := h.aligned
  exact entry_setDir hba (by omega) hk hed hne

include hb

theorem dirWord_addTable (e : ℕ) :
    (st.addTable d b).dirWord e = if e = d then b * 4096 + 1 else st.dirWord e := by
  have := (h.nextFree hb).2.1
  rw [addTable, dirWord_setDir, Nat.mod_eq_of_lt (by omega)]
  rfl

theorem table_addTable (e : ℕ) :
    (st.addTable d b).table e = if e = d then b * 4096 else st.table e := by
  rw [table, dirWord_addTable h hb]
  by_cases hed : e = d
  · rw [if_pos hed, if_pos hed, entryFrame_add (by omega) (by decide)]
  · rw [if_neg hed, if_neg hed, table]

include hd

theorem entry_addTable_self {k : ℕ} (hk : k < 1024) :
    (st.addTable d b).entry d k = pageWord st.phys (b * 4096) k := by
  rw [entry, table_addTable h hb, if_pos rfl]
  exact pageWord_write32_of_ne h.aligned (by omega) (h.nextFree hb).2.2.1 hk (by omega)

theorem Ok.addTable : (st.addTable d b).Ok := by
  obtain ⟨hpos, hlt, hcr3, htables⟩ := h.nextFree hb
  have hused : ∀ c, st.balloc.used c = true → (st.balloc.allocate b).used c = true := fun c hc => by
    rw [Balloc.used_allocate, hc, Bool.true_or]
  have hok : (st.setBalloc (st.balloc.allocate b)).Ok :=
    h.setBalloc rfl (hused _ h.marked) fun e he hne h0 => hused _ (h.tableMarked e he hne h0)
  refine hok.setDir hd (f := b * 4096) (by omega) (entryFrame_add (by omega) (by decide)) (.inr ?_)
    (fun _ => hcr3) (fun _ _ => ?_) fun _ _ e he _ hne => htables e he hne
  · rw [Present]
    omega
  · rw [Nat.mul_div_cancel _ (by decide)]
    change (st.balloc.allocate b).used b = true
    rw [Balloc.used_allocate, decide_eq_true rfl, Bool.or_true]

end AddTable

theorem pdirEntry_lt (hv : v < 2 ^ 32) : pdirEntry v < 1024 := by
  rw [pdirEntry_eq]
  omega

theorem ptableEntry_lt (v : ℕ) : ptableEntry v < 1024 := by
  rw [ptableEntry_eq]
  omega

theorem mapEntry_eq (hr : Recursive st.phys st.cr3) (hv : v < 2 ^ 32)
    (hp : Present (st.dirWord (pdirEntry v))) (p : ℕ) :
    st.mapEntry p v =
      if st.entry (pdirEntry v) (ptableEntry v) ≠ 0 then some (-1, st)
      else some (0, st.setEntry (pdirEntry v) (ptableEntry v) (p ||| 0x1)) := by
  simp only [mapEntry, load_entry hr (pdirEntry_lt hv) (ptableEntry_lt v) hp,
    store_entry hr (pdirEntry_lt hv) (ptableEntry_lt v) hp, Option.bind_eq_bind, Option.bind_some]

/-- Mapping where there is a table. -/
theorem mapBlock_of_table (h : st.Ok) (hv : v < 2 ^ 32) (hp : Present (st.dirWord (pdirEntry v)))
    (p : ℕ) :
    pagemngrMapBlock st p v =
      if st.entry (pdirEntry v) (ptableEntry v) ≠ 0 then some (-1, st)
      else some (0, st.setEntry (pdirEntry v) (ptableEntry v) (p ||| 0x1)) := by
  have hne : st.dirWord (pdirEntry v) ≠ 0 := fun h0 => not_present_zero (h0 ▸ hp)
  rw [← mapEntry_eq h.recursive hv hp p]
  simp only [pagemngrMapBlock, load_dir h.recursive (pdirEntry_lt hv), Option.bind_eq_bind,
    Option.bind_some, if_neg hne]

/-- Only the last entry is present for sure, so an empty one is another. -/
theorem lt_of_dirWord_eq_zero (h : st.Ok) (hv : v < 2 ^ 32) (h0 : st.dirWord (pdirEntry v) = 0) :
    pdirEntry v < 1023 := by
  have hlt := pdirEntry_lt hv
  have hne : pdirEntry v ≠ 1023 := fun h1023 => by
    rw [h1023] at h0
    exact not_present_zero (h0 ▸ h.recursive.1)
  omega

/-- Mapping where there is no table and no frame for one. -/
theorem mapBlock_of_no_frame (h : st.Ok) (hv : v < 2 ^ 32) (h0 : st.dirWord (pdirEntry v) = 0)
    (hnone : ∀ b, ¬ st.balloc.IsNextFree b) (p : ℕ) :
    ∃ e, pagemngrMapBlock st p v =
      some (-1, st.setBalloc { st.balloc with errno := e }) := by
  obtain ⟨e, hcall⟩ := Balloc.allocateBlock_of_none hnone
  refine ⟨e, ?_⟩
  simp only [pagemngrMapBlock, load_dir h.recursive (pdirEntry_lt hv), Option.bind_eq_bind,
    Option.bind_some, h0, hcall, ↓reduceIte]

/-- Mapping where there is no table yet: the next free frame becomes the table, with
whatever it holds. -/
theorem mapBlock_of_frame (h : st.Ok) (hv : v < 2 ^ 32) (h0 : st.dirWord (pdirEntry v) = 0) {b : ℕ}
    (hb : st.balloc.IsNextFree b) (p : ℕ) :
    pagemngrMapBlock st p v =
      if pageWord st.phys (b * 4096) (ptableEntry v) ≠ 0 then some (-1, st.addTable (pdirEntry v) b)
      else some (0, (st.addTable (pdirEntry v) b).setEntry (pdirEntry v) (ptableEntry v)
        (p ||| 0x1)) := by
  have hd := lt_of_dirWord_eq_zero h hv h0
  obtain ⟨hpos, hlt, -, -⟩ := h.nextFree hb
  have hcall : ballocAllocateBlock st.balloc = (b * 4096, st.balloc.allocate b) := by
    rw [Balloc.allocateBlock_of_nextFree hb, Nat.mod_eq_of_lt (by omega)]
  have hor : b * 4096 ||| 0x1 = b * 4096 + 1 := or_flags (by omega) (by decide)
  have hrec := h.recursive
  have hpres : Present ((st.addTable (pdirEntry v) b).dirWord (pdirEntry v)) := by
    rw [dirWord_addTable h hb, if_pos rfl, Present]
    omega
  have hentry := mapEntry_eq (Ok.addTable h hd hb).recursive hv hpres p
  rw [entry_addTable_self h hd hb (ptableEntry_lt v)] at hentry
  rw [← hentry]
  simp only [pagemngrMapBlock, load_dir hrec (pdirEntry_lt hv), Option.bind_eq_bind,
    Option.bind_some, h0, hcall, if_neg (show b * 4096 ≠ 0 by omega), ↓reduceIte, hor]
  rw [store_dir_setBalloc hrec (pdirEntry_lt hv)]
  rfl

/-! ## Unmapping -/

/-- Give table `d` back. -/
def dropTable (st : Paging) (d : ℕ) : Paging :=
  (st.setBalloc (ballocDeallocateBlock st.balloc (st.dirWord d))).setDir d 0

theorem dirWord_dropTable (st : Paging) (d e : ℕ) :
    (st.dropTable d).dirWord e = if e = d then 0 else st.dirWord e :=
  dirWord_setDir (st.setBalloc _) d 0 e

theorem entry_dropTable (ha : st.cr3 % 4096 = 0) (hd : d < 1024) (hk : k < 1024) (hed : e ≠ d)
    (hne : st.table e ≠ st.cr3) : (st.dropTable d).entry e k = st.entry e k := by
  have hba : (st.setBalloc (ballocDeallocateBlock st.balloc (st.dirWord d))).cr3 % 4096 = 0 := ha
  exact entry_setDir hba hd hk hed hne

/-- Clearing an entry keeps the walk working, also in the directory; only the entry
that points at the directory must stay. -/
theorem Ok.clearEntry (h : st.Ok) (hd : d < 1024) (hj : j < 1024) (hne : st.dirWord d ≠ 0)
    (hlast : ¬ (d = 1023 ∧ j = 1023)) :
    (st.setEntry d j 0).Ok ∧ (st.setEntry d j 0).dirWord d = st.dirWord d := by
  by_cases hd' : d < 1023
  · exact ⟨h.setEntry hd' hne hj 0, dirWord_setEntry h.aligned (h.apart d hd' hne) hj hd⟩
  · obtain rfl : d = 1023 := by omega
    have hj' : j < 1023 := by omega
    rw [setEntry_last h.recursive, dirWord_setDir, if_neg (by omega)]
    refine ⟨h.setDir hj' (f := 0) (by decide) rfl (.inl rfl) ?_ ?_ ?_, rfl⟩
    · exact fun h0 => absurd rfl h0
    · exact fun h0 => absurd rfl h0
    · exact fun h0 => absurd rfl h0

theorem unmapBlock_lt {q : ℕ} {st' : Paging} (hcall : pagemngrUnmapBlock st v = some (q, st')) :
    q < 4096 := by
  have hmask : ∀ x : ℕ, x &&& 0xfff < 4096 := fun x => lt_of_le_of_lt Nat.and_le_right (by decide)
  simp only [pagemngrUnmapBlock, Option.bind_eq_bind, Option.bind_eq_some_iff] at hcall
  obtain ⟨word, -, hcall⟩ := hcall
  split at hcall
  · obtain ⟨word, -, hcall⟩ := Option.bind_eq_some_iff.mp hcall
    split at hcall
    · obtain ⟨st₁, -, hcall⟩ := Option.bind_eq_some_iff.mp hcall
      obtain ⟨i, -, hcall⟩ := Option.bind_eq_some_iff.mp hcall
      split at hcall
      · obtain ⟨word', -, hcall⟩ := Option.bind_eq_some_iff.mp hcall
        obtain ⟨st₂, -, hcall⟩ := Option.bind_eq_some_iff.mp hcall
        cases hcall
        exact hmask word
      · cases hcall
        exact hmask word
    · cases hcall
      decide
  · cases hcall
    decide

theorem and_one_ne_zero {x : ℕ} : x &&& 0x1 ≠ 0 ↔ Present x := by
  rw [Nat.and_one_is_mod, Present]
  omega

/-- Unmapping what is not mapped. -/
theorem unmapBlock_of_unmapped (h : st.Ok) (hv : v < 2 ^ 32)
    (hun : ¬ (Present (st.dirWord (pdirEntry v)) ∧
      Present (st.entry (pdirEntry v) (ptableEntry v)))) :
    pagemngrUnmapBlock st v = some (0, st) := by
  simp only [pagemngrUnmapBlock, load_dir h.recursive (pdirEntry_lt hv), Option.bind_eq_bind,
    Option.bind_some, and_one_ne_zero]
  by_cases hd : Present (st.dirWord (pdirEntry v))
  · have he : ¬ Present (st.entry (pdirEntry v) (ptableEntry v)) := fun he => hun ⟨hd, he⟩
    rw [if_pos hd, load_entry h.recursive (pdirEntry_lt hv) (ptableEntry_lt v) hd,
      Option.bind_some, if_neg he]
  · rw [if_neg hd]

/-- Unmapping a page: its entry is cleared, and its table given back if that leaves
it empty. What is returned are the flags of the entry. -/
theorem unmapBlock_of_mapped (h : st.Ok) (hv : v < 2 ^ 32)
    (hd : Present (st.dirWord (pdirEntry v)))
    (he : Present (st.entry (pdirEntry v) (ptableEntry v)))
    (hlast : ¬ (pdirEntry v = 1023 ∧ ptableEntry v = 1023)) :
    (¬ (st.setEntry (pdirEntry v) (ptableEntry v) 0).TableEmpty (pdirEntry v) ∧
      pagemngrUnmapBlock st v = some (st.entry (pdirEntry v) (ptableEntry v) % 4096,
        st.setEntry (pdirEntry v) (ptableEntry v) 0)) ∨
    ((st.setEntry (pdirEntry v) (ptableEntry v) 0).TableEmpty (pdirEntry v) ∧
      pagemngrUnmapBlock st v = some (st.entry (pdirEntry v) (ptableEntry v) % 4096,
        (st.setEntry (pdirEntry v) (ptableEntry v) 0).dropTable (pdirEntry v))) := by
  have hdlt := pdirEntry_lt hv
  have hjlt := ptableEntry_lt v
  have hne : st.dirWord (pdirEntry v) ≠ 0 := fun h0 => not_present_zero (h0 ▸ hd)
  obtain ⟨hok, hdir⟩ := h.clearEntry hdlt hjlt hne hlast
  obtain ⟨k, hk, hiff⟩ := firstUsedEntry_eq hok.recursive hdlt (by rw [hdir]; exact hd) 1024 0 rfl
  have hempty : 1024 ≤ k ↔
      (st.setEntry (pdirEntry v) (ptableEntry v) 0).TableEmpty (pdirEntry v) :=
    hiff.trans ⟨fun h j hj => h j (Nat.zero_le j) hj, fun h j _ hj => h j hj⟩
  have hmask : ∀ x : ℕ, x &&& 0xfff = x % 4096 := fun x => Nat.and_two_pow_sub_one_eq_mod x 12
  by_cases hem : (st.setEntry (pdirEntry v) (ptableEntry v) 0).TableEmpty (pdirEntry v)
  · refine .inr ⟨hem, ?_⟩
    simp only [pagemngrUnmapBlock, load_dir h.recursive hdlt, load_entry h.recursive hdlt hjlt hd,
      store_entry h.recursive hdlt hjlt hd, Option.bind_eq_bind, Option.bind_some,
      and_one_ne_zero, if_pos hd, if_pos he, hk, hmask, ge_iff_le, if_pos (hempty.mpr hem),
      load_dir hok.recursive hdlt]
    rw [store_dir_setBalloc hok.recursive hdlt]
    rfl
  · refine .inl ⟨hem, ?_⟩
    simp only [pagemngrUnmapBlock, load_dir h.recursive hdlt, load_entry h.recursive hdlt hjlt hd,
      store_entry h.recursive hdlt hjlt hd, Option.bind_eq_bind, Option.bind_some,
      and_one_ne_zero, if_pos hd, if_pos he, hk, hmask, ge_iff_le, if_neg (hempty.not.mpr hem)]

/-! ## What a call changes -/

/-- A frame that may be mapped: aligned, and either frame 0 or a marked frame that is
no table. -/
structure Mappable (st : Paging) (p : ℕ) : Prop where
  /-- it is a page -/
  aligned : p % 4096 = 0
  /-- of 32-bit addresses -/
  below : p < 2 ^ 32
  /-- it is not the directory -/
  notDirectory : p ≠ st.cr3
  /-- it is marked -/
  marked : p ≠ 0 → st.balloc.used (p / 4096) = true
  /-- it is no table -/
  notTable : p ≠ 0 → ∀ d < 1023, st.dirWord d ≠ 0 → st.table d ≠ p

/-- Frame 0 may be mapped, and is when there is no other. -/
theorem Ok.mappable_null (h : st.Ok) : st.Mappable 0 :=
  ⟨rfl, by decide, h.notNull.symm, fun h0 => absurd rfl h0, fun h0 => absurd rfl h0⟩

theorem or_one (hp : p % 4096 = 0) : p ||| 0x1 = p + 1 := or_flags hp (by decide)

/-- Setting an empty entry to a frame, also in the directory. -/
theorem Ok.setFrame (h : st.Ok) (hd : d < 1024) (hne : st.dirWord d ≠ 0) (hj : j < 1024)
    (hp : st.Mappable p) (hempty : st.entry d j = 0) : (st.setEntry d j (p + 1)).Ok := by
  by_cases hd' : d < 1023
  · exact h.setEntry hd' hne hj _
  · obtain rfl : d = 1023 := by omega
    have haligned := hp.aligned
    have hbelow := hp.below
    have hj0 : st.dirWord j = 0 := by
      rw [← hempty, entry, table_last h.recursive, dirWord]
    have hj' : j ≠ 1023 := fun hj1023 => by
      rw [hj1023] at hj0
      exact hne hj0
    rw [setEntry_last h.recursive]
    refine h.setDir (by omega) (by omega) (entryFrame_add haligned (by decide)) (.inr ?_)
      (fun _ => hp.notDirectory) (fun _ => hp.marked) fun _ h0 e he _ => hp.notTable h0 e he
    rw [Present]
    omega

/-- The entry that was set points at the frame, and its table is still there. -/
theorem Ok.entry_setFrame (h : st.Ok) (hd : d < 1024) (hne : st.dirWord d ≠ 0) (hj : j < 1024)
    (hp : st.Mappable p) (hempty : st.entry d j = 0) :
    (st.setEntry d j (p + 1)).dirWord d = st.dirWord d ∧
      (st.setEntry d j (p + 1)).entry d j = p + 1 := by
  have hbelow := hp.below
  have haligned := hp.aligned
  have hdir : (st.setEntry d j (p + 1)).dirWord d = st.dirWord d := by
    by_cases hd' : d < 1023
    · exact dirWord_setEntry h.aligned (h.apart d hd' hne) hj hd
    · obtain rfl : d = 1023 := by omega
      have hj0 : st.dirWord j = 0 := by
        rw [← hempty, entry, table_last h.recursive, dirWord]
      rw [setEntry_last h.recursive, dirWord_setDir, if_neg]
      rintro rfl
      exact hne hj0
  refine ⟨hdir, ?_⟩
  rw [entry, table, hdir]
  change pageWord (st.phys.write32 (st.table d + 4 * j) (p + 1)) (st.table d) j = p + 1
  rw [pageWord_write32_self, if_pos rfl, Nat.mod_eq_of_lt (by omega)]

/-- Taking a frame for a table leaves the frames that are in use as they are. -/
theorem Mappable.addTable {b : ℕ} (hp : st.Mappable p) (h : st.Ok) (hb : st.balloc.IsNextFree b) :
    (st.addTable d b).Mappable p := by
  refine ⟨hp.aligned, hp.below, hp.notDirectory, fun h0 => ?_, fun h0 e he => ?_⟩
  · change (st.balloc.allocate b).used _ = true
    rw [Balloc.used_allocate, hp.marked h0, Bool.true_or]
  · rw [dirWord_addTable h hb, table_addTable h hb]
    by_cases hed : e = d
    · rw [if_pos hed, if_pos hed]
      rintro - rfl
      have hm := hp.marked h0
      have hclear : st.balloc.used b = false := hb.2.clear
      rw [Nat.mul_div_cancel _ (by decide), hclear] at hm
      cases hm
    · rw [if_neg hed, if_neg hed]
      exact hp.notTable h0 e he

/-- Every call of `pagemngr_map_block` returns: the entry is set, or something was in
the way, or there was no frame for a table. -/
theorem mapBlock_cases_any (h : st.Ok) (hv : v < 2 ^ 32) (p : ℕ) :
    (st.dirWord (pdirEntry v) ≠ 0 ∧ st.entry (pdirEntry v) (ptableEntry v) ≠ 0 ∧
      pagemngrMapBlock st p v = some (-1, st)) ∨
    (st.dirWord (pdirEntry v) ≠ 0 ∧ st.entry (pdirEntry v) (ptableEntry v) = 0 ∧
      pagemngrMapBlock st p v =
        some (0, st.setEntry (pdirEntry v) (ptableEntry v) (p ||| 0x1))) ∨
    (st.dirWord (pdirEntry v) = 0 ∧ (∀ b, ¬ st.balloc.IsNextFree b) ∧ ∃ e,
      pagemngrMapBlock st p v = some (-1, st.setBalloc { st.balloc with errno := e })) ∨
    (st.dirWord (pdirEntry v) = 0 ∧ ∃ b, st.balloc.IsNextFree b ∧
      ((pageWord st.phys (b * 4096) (ptableEntry v) ≠ 0 ∧
        pagemngrMapBlock st p v = some (-1, st.addTable (pdirEntry v) b)) ∨
      (pageWord st.phys (b * 4096) (ptableEntry v) = 0 ∧
        pagemngrMapBlock st p v = some (0,
          (st.addTable (pdirEntry v) b).setEntry (pdirEntry v) (ptableEntry v)
            (p ||| 0x1))))) := by
  by_cases h0 : st.dirWord (pdirEntry v) = 0
  · by_cases hfree : ∃ b, st.balloc.IsNextFree b
    · obtain ⟨b, hb⟩ := hfree
      refine .inr (.inr (.inr ⟨h0, b, hb, ?_⟩))
      rw [mapBlock_of_frame h hv h0 hb]
      by_cases hw : pageWord st.phys (b * 4096) (ptableEntry v) = 0
      · exact .inr ⟨hw, if_neg (not_not_intro hw)⟩
      · exact .inl ⟨hw, if_pos hw⟩
    · have hnone := not_exists.mp hfree
      exact .inr (.inr (.inl ⟨h0, hnone, mapBlock_of_no_frame h hv h0 hnone p⟩))
  · rw [mapBlock_of_table h hv (h.present (pdirEntry_lt hv) h0)]
    by_cases hw : st.entry (pdirEntry v) (ptableEntry v) = 0
    · exact .inr (.inl ⟨h0, hw, if_neg (not_not_intro hw)⟩)
    · exact .inl ⟨h0, hw, if_pos hw⟩

/-- The same for a frame: the entry is the frame and the flag. -/
theorem mapBlock_cases (h : st.Ok) (hv : v < 2 ^ 32) (hp : p % 4096 = 0) :
    (st.dirWord (pdirEntry v) ≠ 0 ∧ st.entry (pdirEntry v) (ptableEntry v) ≠ 0 ∧
      pagemngrMapBlock st p v = some (-1, st)) ∨
    (st.dirWord (pdirEntry v) ≠ 0 ∧ st.entry (pdirEntry v) (ptableEntry v) = 0 ∧
      pagemngrMapBlock st p v =
        some (0, st.setEntry (pdirEntry v) (ptableEntry v) (p + 1))) ∨
    (st.dirWord (pdirEntry v) = 0 ∧ (∀ b, ¬ st.balloc.IsNextFree b) ∧ ∃ e,
      pagemngrMapBlock st p v = some (-1, st.setBalloc { st.balloc with errno := e })) ∨
    (st.dirWord (pdirEntry v) = 0 ∧ ∃ b, st.balloc.IsNextFree b ∧
      ((pageWord st.phys (b * 4096) (ptableEntry v) ≠ 0 ∧
        pagemngrMapBlock st p v = some (-1, st.addTable (pdirEntry v) b)) ∨
      (pageWord st.phys (b * 4096) (ptableEntry v) = 0 ∧
        pagemngrMapBlock st p v = some (0,
          (st.addTable (pdirEntry v) b).setEntry (pdirEntry v) (ptableEntry v) (p + 1))))) := by
  have hcases := mapBlock_cases_any h hv p
  rw [or_one hp] at hcases
  exact hcases

/-- Mapping keeps the walk working. -/
theorem Ok.mapBlock (h : st.Ok) (hv : v < 2 ^ 32) (hp : st.Mappable p) :
    ∃ r st', pagemngrMapBlock st p v = some (r, st') ∧ st'.Ok := by
  obtain ⟨-, -, hcall⟩ | ⟨hne, hempty, hcall⟩ | ⟨-, -, e, hcall⟩ | ⟨h0, b, hb, hcall⟩ :=
    mapBlock_cases h hv hp.aligned
  · exact ⟨_, _, hcall, h⟩
  · exact ⟨_, _, hcall, h.setFrame (pdirEntry_lt hv) hne (ptableEntry_lt v) hp hempty⟩
  · exact ⟨_, _, hcall, h.setBalloc rfl h.marked h.tableMarked⟩
  · have hd := lt_of_dirWord_eq_zero h hv h0
    have hok := Ok.addTable h hd hb
    obtain ⟨-, hcall⟩ | ⟨hw, hcall⟩ := hcall
    · exact ⟨_, _, hcall, hok⟩
    · refine ⟨_, _, hcall, hok.setFrame (by omega) ?_ (ptableEntry_lt v) (hp.addTable h hb) ?_⟩
      · rw [dirWord_addTable h hb, if_pos rfl]
        omega
      · rw [entry_addTable_self h hd hb (ptableEntry_lt v), hw]

/-- Page `v` is mapped. -/
def Mapped (st : Paging) (v : ℕ) : Prop :=
  Present (st.dirWord (pdirEntry v)) ∧ Present (st.entry (pdirEntry v) (ptableEntry v))

theorem Mapped.dirWord_ne_zero (hm : st.Mapped v) : st.dirWord (pdirEntry v) ≠ 0 :=
  fun h0 => not_present_zero (h0 ▸ hm.1)

theorem translate_eq_none : translate st.phys st.cr3 v = none ↔ ¬ st.Mapped v := by
  rw [translate_eq, Mapped]
  by_cases hd : Present (st.dirWord (pdirEntry v))
  · by_cases he : Present (st.entry (pdirEntry v) (ptableEntry v))
    · simp [hd, he]
    · simp [hd, he]
  · simp [hd]

theorem translate_of_mapped (hm : st.Mapped v) : translate st.phys st.cr3 v =
    some (entryFrame (st.entry (pdirEntry v) (ptableEntry v)) + v % 4096) := by
  rw [translate_eq, if_pos hm.1, if_pos hm.2]

/-- Unmapping the page of the directory itself takes the window away: the scan that
follows faults. -/
theorem unmapBlock_last (h : st.Ok) (hd : pdirEntry v = 1023)
    (hj : ptableEntry v = 1023) : pagemngrUnmapBlock st v = none := by
  have hlast : Present (st.dirWord 1023) := h.recursive.1
  have hentry : st.entry 1023 1023 = st.dirWord 1023 := by
    rw [entry, table_last h.recursive, dirWord]
  have hgone : (st.setDir 1023 0).firstUsedEntry (pageTableVirtualBase + 1023 * 4096) (1023 + 1) 0 =
      none := by
    have hnone : (st.setDir 1023 0).load (pageTableVirtualBase + 1023 * 4096 + 4 * 0) = none := by
      rw [load, translate_of_no_table]
      · rfl
      · change ¬ Present ((st.setDir 1023 0).dirWord 1023)
        rw [dirWord_setDir, if_pos rfl]
        exact not_present_zero
    rw [firstUsedEntry, hnone]
    rfl
  simp only [pagemngrUnmapBlock, hd, hj, load_dir h.recursive (show 1023 < 1024 by decide),
    load_entry h.recursive (show 1023 < 1024 by decide) (show 1023 < 1024 by decide) hlast,
    store_entry h.recursive (show 1023 < 1024 by decide) (show 1023 < 1024 by decide) hlast,
    Option.bind_eq_bind, Option.bind_some, and_one_ne_zero, if_pos hlast, hentry,
    setEntry_last h.recursive]
  rw [hgone]
  rfl

/-- Every call of `pagemngr_unmap_block`: nothing to do, a fault, the entry cleared, or
the entry cleared and its table given back. -/
theorem unmapBlock_cases (h : st.Ok) (hv : v < 2 ^ 32) :
    (¬ st.Mapped v ∧ pagemngrUnmapBlock st v = some (0, st)) ∨
    (st.Mapped v ∧ pagemngrUnmapBlock st v = none) ∨
    (st.Mapped v ∧ ¬ (pdirEntry v = 1023 ∧ ptableEntry v = 1023) ∧
      pagemngrUnmapBlock st v = some (st.entry (pdirEntry v) (ptableEntry v) % 4096,
        st.setEntry (pdirEntry v) (ptableEntry v) 0)) ∨
    (st.Mapped v ∧ pdirEntry v < 1023 ∧
      (st.setEntry (pdirEntry v) (ptableEntry v) 0).TableEmpty (pdirEntry v) ∧
      pagemngrUnmapBlock st v = some (st.entry (pdirEntry v) (ptableEntry v) % 4096,
        (st.setEntry (pdirEntry v) (ptableEntry v) 0).dropTable (pdirEntry v))) := by
  by_cases hm : st.Mapped v
  swap
  · exact .inl ⟨hm, unmapBlock_of_unmapped h hv hm⟩
  by_cases hlast : pdirEntry v = 1023 ∧ ptableEntry v = 1023
  · exact .inr (.inl ⟨hm, unmapBlock_last h hlast.1 hlast.2⟩)
  obtain ⟨-, hcall⟩ | ⟨hempty, hcall⟩ := unmapBlock_of_mapped h hv hm.1 hm.2 hlast
  · exact .inr (.inr (.inl ⟨hm, hlast, hcall⟩))
  · refine .inr (.inr (.inr ⟨hm, ?_, hempty, hcall⟩))
    -- the directory never becomes empty: its last entry is in use
    by_contra hd
    have hdlt := pdirEntry_lt hv
    have hd' : pdirEntry v = 1023 := by omega
    have hne : st.dirWord 1023 ≠ 0 := fun h0 => not_present_zero (h0 ▸ h.recursive.1)
    have hj := ptableEntry_lt v
    have hlast' := hempty 1023 (by decide)
    rw [hd', setEntry_last h.recursive] at hlast'
    have hrec := (h.clearEntry (show 1023 < 1024 by decide) hj hne (by omega)).1.recursive
    rw [setEntry_last h.recursive] at hrec
    rw [entry, table_last hrec] at hlast'
    have hword : (st.setDir (ptableEntry v) 0).dirWord 1023 = 0 := hlast'
    rw [dirWord_setDir, if_neg (by omega)] at hword
    exact hne hword

theorem Ok.dropTable (h : st.Ok) (hd : d < 1023) (hne : st.dirWord d ≠ 0) :
    (st.dropTable d).Ok := by
  have hzero : (st.setDir d 0).Ok := by
    refine h.setDir hd (f := 0) (by decide) rfl (.inl rfl) ?_ ?_ ?_
    · exact fun h0 => absurd rfl h0
    · exact fun h0 => absurd rfl h0
    · exact fun h0 => absurd rfl h0
  have hframe : st.dirWord d / 4096 = st.table d / 4096 := by
    rw [table, entryFrame, Nat.mul_div_cancel _ (by decide)]
  have halign := st.table_aligned
  have hcr3 := h.aligned
  have hkeep : ∀ p, p % 4096 = 0 → st.balloc.used (p / 4096) = true → p ≠ st.table d →
      (ballocDeallocateBlock st.balloc (st.dirWord d)).used (p / 4096) = true := by
    intro p hp hused hpd
    have hnot : p / 4096 ≠ st.table d / 4096 := by
      have := halign d
      omega
    rw [Balloc.used_deallocateBlock, hused, hframe]
    simp [hnot]
  change ((st.setDir d 0).setBalloc _).Ok
  refine hzero.setBalloc (st.balloc.deallocateBlock_totalBlocks _)
    (hkeep _ hcr3 h.marked (h.apart d hd hne).symm) fun e he hne' htab => ?_
  rw [dirWord_setDir] at hne'
  rw [table_setDir] at htab ⊢
  by_cases hed : e = d
  · rw [if_pos hed] at hne'
    exact absurd rfl hne'
  · rw [if_neg hed] at hne' htab ⊢
    exact hkeep _ (halign e) (h.tableMarked e he hne' htab) fun heq =>
      hed (h.distinct e he d hd hne' hne heq htab)

/-- Unmapping keeps the walk working, unless it faults. -/
theorem Ok.unmapBlock (h : st.Ok) (hv : v < 2 ^ 32) {q : ℕ} {st' : Paging}
    (hcall : pagemngrUnmapBlock st v = some (q, st')) : st'.Ok := by
  obtain ⟨-, hres⟩ | ⟨-, hres⟩ | ⟨hm, hlast, hres⟩ | ⟨hm, hd, -, hres⟩ := unmapBlock_cases h hv
  · rw [hres] at hcall
    cases hcall
    exact h
  · rw [hres] at hcall
    cases hcall
  · rw [hres] at hcall
    cases hcall
    exact (h.clearEntry (pdirEntry_lt hv) (ptableEntry_lt v) hm.dirWord_ne_zero hlast).1
  · rw [hres] at hcall
    cases hcall
    obtain ⟨hok, hdir⟩ := h.clearEntry (pdirEntry_lt hv) (ptableEntry_lt v) hm.dirWord_ne_zero
      (by omega)
    exact hok.dropTable hd (hdir.symm ▸ hm.dirWord_ne_zero)

end Paging

/-! ## The state the boot hands over -/

/-- The paging state of a kernel that was started on the boot's tables. -/
def bootPaging (bp : BootPaging) (balloc : Balloc) : Paging where
  phys := bp.early.mem
  cr3 := bp.pageDirectory
  balloc := handOver bp.early balloc

/-- What the boot built is what the walk relies on. -/
theorem Built.bootPaging_ok {image : KernelImage} {api : MultibootApi} {old : Kmemlow}
    {live : List ℕ} {bp : BootPaging} {frame : ℕ} {words : ℕ → ℕ → ℕ}
    (hb : Built image api old live bp.early (bootFrames bp frame) words)
    (ht : BootFilled bp frame) (balloc : Balloc) : (bootPaging bp balloc).Ok := by
  have htotal := kmemlowLayout_totalBlocks_lt image api
  have hdirmem : bp.pageDirectory ∈ bootFrames bp frame := by simp [bootFrames]
  have hnd := (List.nodup_append.mp hb.nodup).1
  have hused : ∀ p ∈ bootFrames bp frame, (bootPaging bp balloc).balloc.used (p / 4096) = true :=
    fun p hp => (FrameState.inv_of_reach hb.reach).2.marked p (List.mem_append_left _ hp)
  have halign := fun p (hp : p ∈ bootFrames bp frame) => (hb.page hp).1
  have hdirectory : ∀ d < 1023, (bootPaging bp balloc).dirWord d = directoryWords bp d :=
    fun d hd => ht.directory d (by omega)
  have htable : ∀ d < 1023, (bootPaging bp balloc).dirWord d ≠ 0 →
      (bootPaging bp balloc).table d ∈ bootFrames bp frame ∧
      (bootPaging bp balloc).table d ≠ bp.pageDirectory ∧
      (bootPaging bp balloc).dirWord d = (bootPaging bp balloc).table d + 5 := by
    intro d hd hne
    rw [hdirectory d hd] at hne
    obtain ⟨t, ht', hdt⟩ := (directoryWords_cases bp hd).resolve_left hne
    obtain ⟨htm, htd⟩ := mem_bootFrames_of_table hnd ht'
    have htab : (bootPaging bp balloc).table d = t := by
      rw [Paging.table, hdirectory d hd, hdt, entryFrame_add (halign t htm) (by decide)]
    rw [htab, hdirectory d hd]
    exact ⟨htm, htd, hdt⟩
  refine ⟨halign _ hdirmem, ?_, hused _ hdirmem, bootDirectory_recursive ht.directory halign,
    fun d hd => ?_,
    fun d hd hne => (htable d hd hne).2.1, fun d hd hne _ => hused _ (htable d hd hne).1,
    fun d hd e he hne hne' htab _ => ?_, ?_⟩
  · exact hb.ne_zero hdirmem
  · rw [hdirectory d hd]
    refine (directoryWords_cases bp hd).imp_right ?_
    rintro ⟨t, ht', hdt⟩
    rw [hdt]
    exact present_add_five (halign t (mem_bootFrames_of_table hnd ht').1)
  · -- the three entries differ because their tables do
    have heq : directoryWords bp d = directoryWords bp e := by
      rw [← hdirectory d hd, ← hdirectory e he, (htable d hd hne).2.2, (htable e he hne').2.2, htab]
    rw [hdirectory d hd] at hne
    simp only [bootFrames, List.nodup_cons, List.mem_cons, not_or] at hnd
    simp only [directoryWords] at heq hne
    split_ifs at heq hne <;> omega
  · change bp.early.layout.totalBlocks ≤ _
    rw [hb.layout]
    omega

/-! ## Mapping and unmapping again -/

/-- Unmapping right after a successful mapping returns the frame and puts everything
back: every translation, the marked frames and the count. -/
def MapUnmapInverse (st : Paging) (p v : ℕ) : Prop :=
  ∀ st', pagemngrMapBlock st p v = some (0, st') →
    ∃ st'', pagemngrUnmapBlock st' v = some (p, st'') ∧
      (∀ a < 2 ^ 32, translate st''.phys st''.cr3 a = translate st.phys st.cr3 a) ∧
      (∀ b, st''.balloc.used b = st.balloc.used b) ∧
      st''.balloc.usedBlocks = st.balloc.usedBlocks

/-- Mapping `v` does not succeed: there is something in its entry, or there is no
table and no frame for one, or the frame that becomes the table already holds
something in that entry. -/
def MapRefused (st : Paging) (v : ℕ) : Prop :=
  if st.dirWord (pdirEntry v) = 0 then
    ∀ b, st.balloc.IsNextFree b → pageWord st.phys (b * 4096) (ptableEntry v) ≠ 0
  else st.entry (pdirEntry v) (ptableEntry v) ≠ 0

/-- Unless it is refused, a mapping succeeds. -/
theorem mapBlock_succeeds_iff {st : Paging} {v : ℕ} (h : st.Ok) (hv : v < 0xffc00000) (p : ℕ) :
    (∃ st', pagemngrMapBlock st p v = some (0, st')) ↔ ¬ MapRefused st v := by
  have hd : pdirEntry v < 1023 := by
    rw [pdirEntry_eq]
    omega
  rw [MapRefused]
  by_cases h0 : st.dirWord (pdirEntry v) = 0
  · rw [if_pos h0]
    by_cases hfree : ∃ b, st.balloc.IsNextFree b
    · obtain ⟨b, hb⟩ := hfree
      rw [Paging.mapBlock_of_frame h (by omega) h0 hb]
      by_cases hw : pageWord st.phys (b * 4096) (ptableEntry v) ≠ 0
      · rw [if_pos hw]
        refine iff_of_false (by rintro ⟨st', hst'⟩; cases hst') (not_not_intro fun c hc => ?_)
        rw [hc.unique hb]
        exact hw
      · rw [if_neg hw]
        exact iff_of_true ⟨_, rfl⟩ fun hall => hw (hall b hb)
    · obtain ⟨e, hcall⟩ := Paging.mapBlock_of_no_frame h (by omega) h0 (not_exists.mp hfree) p
      rw [hcall]
      refine iff_of_false (by rintro ⟨st', hst'⟩; cases hst') (not_not_intro fun b hb => ?_)
      exact absurd ⟨b, hb⟩ hfree
  · rw [if_neg h0, Paging.mapBlock_of_table h (by omega) (h.present (by omega) h0)]
    by_cases hw : st.entry (pdirEntry v) (ptableEntry v) ≠ 0
    · rw [if_pos hw]
      exact iff_of_false (by rintro ⟨st', hst'⟩; cases hst') (not_not_intro hw)
    · rw [if_neg hw]
      exact iff_of_true ⟨_, rfl⟩ hw

/-- **Mapping and unmapping are never inverse.** What `pagemngr_unmap_block` returns are the flags
of the entry and not its frame, so the two agree with the intention only where the mapping does not
succeed.

The mask of the returned entry is `0xfff` where `~0xfff` was meant. A mapping that succeeds and is
undone therefore returns the flag, 1, and no frame; where the mapping is refused there is nothing
to undo. -/
theorem mapUnmapInverse_iff (st : Paging) (p v : ℕ) (h : st.Ok) (hv : v < 0xffc00000)
    (hp : p % 4096 = 0) (hp0 : p ≠ 0) :
    MapUnmapInverse st p v ↔ MapRefused st v := by
  constructor
  · intro hinv
    by_contra hnot
    obtain ⟨st', hmap⟩ := (mapBlock_succeeds_iff h hv p).mpr hnot
    obtain ⟨st'', hunmap, -⟩ := hinv st' hmap
    have := Paging.unmapBlock_lt hunmap
    omega
  · intro href st' hmap
    exact absurd href ((mapBlock_succeeds_iff h hv p).mp ⟨st', hmap⟩)

/-- A kernel that has mapped nothing but its directory, in frame 2; the first eight
blocks of 32 are taken. -/
def loneDirectory : Paging where
  phys := Mem.write32 (fun _ => 0) (0x2000 + 4 * 1023) 0x2001
  cr3 := 0x2000
  balloc :=
    { mbmp := fun _ => 0xff
      totalBlocks := 32
      usedBlocks := 8
      errno := 0
      touched := [] }

theorem loneDirectory_dirWord (d : ℕ) :
    loneDirectory.dirWord d = if d = 1023 then 0x2001 else 0 :=
  pageWord_write32_self (fun _ => 0) 0x2000 d 1023 0x2001

theorem loneDirectory_ok : loneDirectory.Ok := by
  have h0 : ∀ d < 1023, loneDirectory.dirWord d = 0 := fun d hd => by
    rw [loneDirectory_dirWord, if_neg (by omega)]
  have hlast : pageWord loneDirectory.phys loneDirectory.cr3 1023 = 0x2001 :=
    loneDirectory_dirWord 1023
  refine ⟨by decide, by decide, by decide, ?_, fun d hd => .inl (h0 d hd),
    fun d hd hne => absurd (h0 d hd) hne, fun d hd hne => absurd (h0 d hd) hne,
    fun d hd _ _ hne => absurd (h0 d hd) hne, by decide⟩
  rw [Recursive, hlast]
  exact ⟨by decide, by decide⟩

/-- Its first free frame is empty, so a mapping at four megabytes is not refused. -/
theorem loneDirectory_not_refused : ¬ MapRefused loneDirectory 0x400000 := by
  have h0 : loneDirectory.dirWord (pdirEntry 0x400000) = 0 := loneDirectory_dirWord 1
  rw [MapRefused, if_pos h0]
  intro hall
  refine hall 8 ⟨by decide, by decide, by decide, by decide⟩ ?_
  exact (Mem.read32_write32_of_disjoint (by decide)).trans rfl

/-- Mapping frame `0x5000` at four megabytes and unmapping it again does not return
the frame. -/
theorem loneDirectory_not_inverse : ¬ MapUnmapInverse loneDirectory 0x5000 0x400000 := by
  intro hinv
  obtain ⟨st', hmap⟩ :=
    (mapBlock_succeeds_iff loneDirectory_ok (by decide) 0x5000).mpr loneDirectory_not_refused
  obtain ⟨st'', hunmap, -⟩ := hinv st' hmap
  exact absurd (Paging.unmapBlock_lt hunmap) (by decide)

/-- At the directory that maps nothing else. -/
theorem loneDirectory_inverse_iff :
    MapUnmapInverse loneDirectory 0x5000 0x400000 ↔ MapRefused loneDirectory 0x400000 :=
  mapUnmapInverse_iff loneDirectory 0x5000 0x400000 loneDirectory_ok (by decide) (by decide)
    (by decide)

end MissyKernel
