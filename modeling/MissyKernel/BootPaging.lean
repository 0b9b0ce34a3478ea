import MissyKernel.TwoLevelPaging
import MissyKernel.FrameOwnership

/-!
# The boot page tables (`paging.c`)

`ki_setup_paging` takes five frames from the early allocator, clears them, and
fills them through their physical addresses: a directory that ends in itself, an
identity map of the first megabyte, the kernel at `0xc0100000`, and one page of
stack below the window of the directory.

The setup may run out of frames at any of its five allocations; it returns -1 then, and what it
has done so far stays done. The mapping loop is written for any range; `pageWord_mapPages` says
what it leaves in its table as long as it stays within the four megabytes that one table covers.
The model keeps one memory, so that the tables are written next to the bitmap.
-/

namespace MissyKernel

/-- `ERROR_PAGING_ENOMEM` -/
def errorPagingEnomem : ℕ := 0x0001

/-- `pdir_entry` -/
def pdirEntry (x : ℕ) : ℕ := x >>> 22

/-- `ptable_entry` -/
def ptableEntry (x : ℕ) : ℕ := (x &&& (0xffffffff ^^^ 0xffc00000)) >>> 12

theorem pdirEntry_eq (x : ℕ) : pdirEntry x = x / 2 ^ 22 := Nat.shiftRight_eq_div_pow x 22

theorem ptableEntry_eq (x : ℕ) : ptableEntry x = x / 4096 % 1024 := by
  rw [ptableEntry, show 0xffffffff ^^^ 0xffc00000 = 2 ^ 22 - 1 from rfl,
    Nat.and_two_pow_sub_one_eq_mod, Nat.shiftRight_eq_div_pow]
  omega

/-- `KERNEL_STACK_MAPPING` -/
def kernelStackMapping : ℕ := 0xffc00000 - 4096

/-- The statics of `paging.c`, over the state of the early allocator. -/
structure BootPaging : Type where
  /-- physical memory and the early allocator -/
  early : Kmemlow
  /-- `_page_directory` -/
  pageDirectory : ℕ
  /-- `_first_pagetable` -/
  firstPagetable : ℕ
  /-- `_kernel_pagetable` -/
  kernelPagetable : ℕ
  /-- `_kernel_stack_map` -/
  kernelStackMap : ℕ
  /-- `_kernel_end_virtual` -/
  kernelEndVirtual : ℕ

/-- `ki_memset` -/
def kiMemset (m : Mem) (dst : ℕ) (c : BitVec 8) (count : ℕ) : Mem := m.fill dst c count

/-- The loops that map consecutive pages: from `i` on while it is below `limit`,
the page at `i` gets the frame at `i - bias`. There are `2 ^ 20` pages, so as many
rounds suffice. -/
def mapPages (table bias limit : ℕ) : ℕ → ℕ → Mem → Mem
  | 0, _, m => m
  | rounds + 1, i, m =>
    if i < limit then
      mapPages table bias limit rounds ((i + 4096) % 2 ^ 32)
        (m.write32 (table + 4 * ptableEntry i) ((i - bias) ||| 0x1 ||| 0x4))
    else m

namespace BootPaging

/-- The statics as the C initialisers leave them. -/
def start (early : Kmemlow) : BootPaging where
  early := early
  pageDirectory := 0
  firstPagetable := 0
  kernelPagetable := 0
  kernelStackMap := 0
  kernelEndVirtual := 0

/-- Replace the contents of memory. -/
def setMem (st : BootPaging) (m : Mem) : BootPaging := { st with early := st.early.setMem m }

/-- The error exit of the four steps. -/
def noMemory (st : BootPaging) : ℤ × BootPaging :=
  (-1, { st with early := { st.early with kinitErrno := errorPagingEnomem } })

/-- `create_page_directory` -/
def createPageDirectory (st : BootPaging) : ℤ × BootPaging :=
  let (directory, early) := kmemlowAlloc st.early
  let st := { st with early := early, pageDirectory := directory }
  if directory = 0 then st.noMemory
  else
    let m := kiMemset early.mem directory 0 4096
    (0, st.setMem
      (m.write32 (directory + 4 * pdirEntry 0xffc00000) (directory ||| 0x1 ||| 0x4)))

/-- `map_first_megabyte` -/
def mapFirstMegabyte (st : BootPaging) : ℤ × BootPaging :=
  let (table, early) := kmemlowAlloc st.early
  let st := { st with early := early, firstPagetable := table }
  if table = 0 then st.noMemory
  else
    let m := kiMemset early.mem table 0 4096
    let m := m.write32 (st.pageDirectory + 4 * pdirEntry 0) (table ||| 0x1 ||| 0x4)
    (0, st.setMem (mapPages table 0 0x100000 (2 ^ 20) 0 m))

/-- `map_kernel` -/
def mapKernel (st : BootPaging) : ℤ × BootPaging :=
  let (table, early) := kmemlowAlloc st.early
  let st := { st with early := early, kernelPagetable := table }
  if table = 0 then st.noMemory
  else
    let m := kiMemset early.mem table 0 4096
    let m := m.write32 (st.pageDirectory + 4 * pdirEntry 0xc0100000) (table ||| 0x1 ||| 0x4)
    let kernelEndVirtual := (early.layout.kernelEndPhysical + 0xc0000000) % 2 ^ 32
    let st := { st with kernelEndVirtual := kernelEndVirtual }
    (0, st.setMem (mapPages table 0xc0000000 kernelEndVirtual (2 ^ 20) 0xc0100000 m))

/-- `create_new_kernel_stack` -/
def createNewKernelStack (st : BootPaging) : ℤ × BootPaging :=
  let (table, early) := kmemlowAlloc st.early
  let st := { st with early := early, kernelStackMap := table }
  if table = 0 then st.noMemory
  else
    let (block, early) := kmemlowAlloc st.early
    let st := { st with early := early }
    if block = 0 then st.noMemory
    else
      let m := kiMemset early.mem table 0 4096
      let m := kiMemset m block 0 4096
      let m := m.write32 (st.pageDirectory + 4 * pdirEntry kernelStackMapping)
        (table ||| 0x1 ||| 0x4)
      (0, st.setMem
        (m.write32 (table + 4 * ptableEntry kernelStackMapping) (block ||| 0x1 ||| 0x4)))

end BootPaging

/-- `ki_setup_paging` -/
def kiSetupPaging (st : BootPaging) : ℤ × BootPaging :=
  let (result, st) := st.createPageDirectory
  if result ≠ 0 then (result, st)
  else
    let (result, st) := st.mapFirstMegabyte
    if result ≠ 0 then (result, st)
    else
      let (result, st) := st.mapKernel
      if result ≠ 0 then (result, st)
      else
        let (result, st) := st.createNewKernelStack
        if result ≠ 0 then (result, st) else (0, st)

/-! ## The mapping loop -/

theorem or_present_user {p : ℕ} (hp : p % 4096 = 0) : p ||| 0x1 ||| 0x4 = p + 5 := by
  rw [Nat.or_assoc]
  exact or_flags hp (by decide)

/-- An entry the loop writes is not zero, whatever the frame. -/
theorem or_present_mod_ne_zero (p : ℕ) : (p ||| 0x1 ||| 0x4) % 2 ^ 32 ≠ 0 := by
  have hodd : (p ||| 0x1 ||| 0x4) % 2 = 1 := by
    simp
  omega

/-- The loop writes inside its table only. -/
theorem mapPages_apply_outside {table bias limit a : ℕ} (ha : a < table ∨ table + 4096 ≤ a) :
    ∀ (n i : ℕ) (m : Mem), mapPages table bias limit n i m a = m a
  | 0, _, _ => rfl
  | n + 1, i, m => by
    rw [mapPages]
    by_cases hi : i < limit
    · have := ptableEntry_eq i
      rw [if_pos hi, mapPages_apply_outside ha n, Mem.write32_apply_outside (by omega)]
    · rw [if_neg hi]

/-- Whatever the loop writes, it never clears a word of its table. -/
theorem pageWord_mapPages_ne_zero {table bias limit j : ℕ} :
    ∀ (n i : ℕ) (m : Mem), pageWord m table j ≠ 0 →
      pageWord (mapPages table bias limit n i m) table j ≠ 0
  | 0, _, _, h => h
  | n + 1, i, m, h => by
    rw [mapPages]
    by_cases hi : i < limit
    · rw [if_pos hi]
      apply pageWord_mapPages_ne_zero n
      rw [pageWord_write32_self]
      split
      · exact or_present_mod_ne_zero (i - bias)
      · exact h
    · rw [if_neg hi]
      exact h

/-- What the loop leaves in the table when it stays inside the four megabytes from
`base` on: the pages from `j₀` up to the limit, and the old words elsewhere. -/
theorem pageWord_mapPages {table bias limit base : ℕ} (hbase : base % 2 ^ 22 = 0)
    (hbias : bias ≤ base) (hbias' : bias % 4096 = 0) (htop : base + 2 ^ 22 < 2 ^ 32)
    (hlimit : limit ≤ base + 2 ^ 22) {j : ℕ} (hj : j < 1024) :
    ∀ (n j₀ : ℕ) (m : Mem), 1024 - j₀ < n → j₀ ≤ 1024 →
      pageWord (mapPages table bias limit n (base + 4096 * j₀) m) table j =
        if j₀ ≤ j ∧ base + 4096 * j < limit then base + 4096 * j - bias + 5
        else pageWord m table j
  | 0, _, _, hn, _ => absurd hn (by omega)
  | n + 1, j₀, m, hn, hj₀ => by
    rw [mapPages]
    by_cases hi : base + 4096 * j₀ < limit
    · have hentry : ptableEntry (base + 4096 * j₀) = j₀ := by
        rw [ptableEntry_eq]
        omega
      rw [if_pos hi, show (base + 4096 * j₀ + 4096) % 2 ^ 32 = base + 4096 * (j₀ + 1) by omega,
        pageWord_mapPages hbase hbias hbias' htop hlimit hj n (j₀ + 1) _ (by omega) (by omega),
        hentry, pageWord_write32_self, or_present_user (by omega)]
      by_cases hjj : j = j₀
      · subst hjj
        rw [if_neg (by omega), if_pos rfl, if_pos ⟨le_refl _, hi⟩, Nat.mod_eq_of_lt (by omega)]
      · by_cases hin : j₀ + 1 ≤ j ∧ base + 4096 * j < limit
        · rw [if_pos hin, if_pos ⟨by omega, hin.2⟩]
        · rw [if_neg hin, if_neg hjj, if_neg (by omega)]
    · rw [if_neg hi, if_neg (by omega)]

/-- The loop over an empty table, from `first` on. -/
theorem Table.mapPages {table limit first : ℕ} {m : Mem} {f : ℕ → ℕ}
    (h : Table m table fun _ => 0) (base bias j₀ : ℕ) (hfirst : first = base + 4096 * j₀)
    (hj₀ : j₀ ≤ 1024) (hbase : base % 2 ^ 22 = 0) (hbias : bias ≤ base)
    (hbias' : bias % 4096 = 0) (htop : base + 2 ^ 22 < 2 ^ 32) (hlimit : limit ≤ base + 2 ^ 22)
    (hf : ∀ j, f j = if j₀ ≤ j ∧ base + 4096 * j < limit then base + 4096 * j - bias + 5 else 0) :
    Table (mapPages table bias limit (2 ^ 20) first m) table f := by
  intro j hj
  rw [hfirst, pageWord_mapPages hbase hbias hbias' htop hlimit hj _ _ _ (by omega) hj₀, h j hj,
    hf j]

end MissyKernel
