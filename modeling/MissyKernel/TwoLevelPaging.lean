import MissyKernel.ByteMemory

/-!
# Two-level page tables

The 32-bit page walk over a byte memory: ten bits of the address index the
directory, ten the table, twelve are the offset. An entry is a page-aligned frame
plus flags, of which the lowest says whether it is present. A page that is seen
as a table is read through `pageWord`, so that what a store does to the tables is
one equation about one word.

`translate` is the walk itself: `none` is an address where the directory or the table has no
present entry. A directory may end in itself (`Recursive`); then the last four megabytes of the
address space are a window on the tables (`translate_window`), and the directory is seen in it
as the table 1023. Nothing here knows how a kernel sets its tables up, or changes them.
-/

namespace MissyKernel

/-! ## Entries -/

/-- The entry is present. -/
def Present (e : ℕ) : Prop := e % 2 = 1

instance (e : ℕ) : Decidable (Present e) := inferInstanceAs (Decidable (e % 2 = 1))

/-- The frame an entry points at. -/
def entryFrame (e : ℕ) : ℕ := e / 4096 * 4096

/-- Flags below the page bits are added to an aligned frame. -/
theorem or_flags {p f : ℕ} (hp : p % 4096 = 0) (hf : f < 4096) : p ||| f = p + f := by
  have h := Nat.two_pow_add_eq_or_of_lt (i := 12) (b := f) hf (p / 4096)
  rw [show 2 ^ 12 * (p / 4096) = p by omega] at h
  exact h.symm

theorem entryFrame_add {p f : ℕ} (hp : p % 4096 = 0) (hf : f < 4096) :
    entryFrame (p + f) = p := by
  rw [entryFrame]
  omega

theorem entryFrame_aligned (e : ℕ) : entryFrame e % 4096 = 0 := by
  rw [entryFrame]
  omega

theorem not_present_zero : ¬ Present 0 := by
  rw [Present]
  omega

/-! ## Tables -/

/-- Word `j` of the page at `p`. -/
def pageWord (m : Mem) (p j : ℕ) : ℕ := m.read32 (p + 4 * j)

variable {m m' : Mem} {p q j k v : ℕ}

theorem pageWord_congr (hj : j < 1024) (h : ∀ a, p ≤ a → a < p + 4096 → m' a = m a) :
    pageWord m' p j = pageWord m p j :=
  Mem.read32_congr fun i hi => h _ (by omega) (by omega)

/-- A store into a page changes one of its words. -/
theorem pageWord_write32_self (m : Mem) (p j k v : ℕ) :
    pageWord (m.write32 (p + 4 * k) v) p j = if j = k then v % 2 ^ 32 else pageWord m p j := by
  by_cases hjk : j = k
  · rw [if_pos hjk, hjk, pageWord, Mem.read32_write32_self]
  · rw [if_neg hjk, pageWord, Mem.read32_write32_of_disjoint (by omega), pageWord]

/-- A store into a page changes no word of another page. -/
theorem pageWord_write32_of_ne (hp : p % 4096 = 0) (hq : q % 4096 = 0) (hne : q ≠ p)
    (hj : j < 1024) (hk : k < 1024) :
    pageWord (m.write32 (p + 4 * k) v) q j = pageWord m q j := by
  rw [pageWord, Mem.read32_write32_of_disjoint (by omega), pageWord]

/-- The page at `p`, seen as a table, holds the words `f`. -/
def Table (m : Mem) (p : ℕ) (f : ℕ → ℕ) : Prop := ∀ j < 1024, pageWord m p j = f j

variable {f : ℕ → ℕ}

/-- Every page is a table of some words. -/
theorem exists_table (m : Mem) (p : ℕ) : ∃ f, Table m p f := ⟨pageWord m p, fun _ _ => rfl⟩

theorem Table.congr (h : Table m p f) (hm : ∀ a, p ≤ a → a < p + 4096 → m' a = m a) :
    Table m' p f :=
  fun j hj => (pageWord_congr hj hm).trans (h j hj)

/-- A page that was filled with zeros is an empty table. -/
theorem Table.fill_zero (m : Mem) (p : ℕ) : Table (m.fill p 0 4096) p (fun _ => 0) :=
  fun _ _ => Mem.read32_fill_zero (by omega) (by omega)

/-- A store into a table updates one entry. -/
theorem Table.write32 (h : Table m p f) (hv : v < 2 ^ 32) :
    Table (m.write32 (p + 4 * k) v) p (Function.update f k v) := by
  intro j hj
  rw [pageWord_write32_self, Nat.mod_eq_of_lt hv, Function.update_apply, h j hj]

/-! ## The walk -/

/-- The physical address that `v` translates to under the directory at `root`, if
both entries on the way are present. -/
def translate (m : Mem) (root v : ℕ) : Option ℕ :=
  let pde := pageWord m root (v / 2 ^ 22)
  if Present pde then
    let pte := pageWord m (entryFrame pde) (v / 4096 % 1024)
    if Present pte then some (entryFrame pte + v % 4096) else none
  else none

theorem translate_of_present {root : ℕ}
    (hd : Present (pageWord m root (v / 2 ^ 22)))
    (ht : Present (pageWord m (entryFrame (pageWord m root (v / 2 ^ 22))) (v / 4096 % 1024))) :
    translate m root v = some (entryFrame
      (pageWord m (entryFrame (pageWord m root (v / 2 ^ 22))) (v / 4096 % 1024)) + v % 4096) := by
  simp only [translate]
  rw [if_pos hd, if_pos ht]

theorem translate_of_no_table {root : ℕ} (hd : ¬ Present (pageWord m root (v / 2 ^ 22))) :
    translate m root v = none := by
  simp only [translate]
  rw [if_neg hd]

theorem translate_of_no_page {root : ℕ}
    (ht : ¬ Present (pageWord m (entryFrame (pageWord m root (v / 2 ^ 22))) (v / 4096 % 1024))) :
    translate m root v = none := by
  simp only [translate]
  rw [if_neg ht, ite_self]

/-! ## The directory seen through itself

When the last entry of the directory points at the directory, the top four
megabytes of the address space show the tables, and the top page the directory. -/

/-- The directory's last entry is present and points at the directory. -/
def Recursive (m : Mem) (root : ℕ) : Prop :=
  Present (pageWord m root 1023) ∧ entryFrame (pageWord m root 1023) = root

variable {root d off : ℕ}

/-- The window page of table `d` is the table itself. -/
theorem translate_window (hr : Recursive m root) (hd : d < 1024) (hoff : off < 4096)
    (hp : Present (pageWord m root d)) :
    translate m root (0xffc00000 + d * 4096 + off) =
      some (entryFrame (pageWord m root d) + off) := by
  have hdir : (0xffc00000 + d * 4096 + off) / 2 ^ 22 = 1023 := by omega
  have htab : (0xffc00000 + d * 4096 + off) / 4096 % 1024 = d := by omega
  have hmod : (0xffc00000 + d * 4096 + off) % 4096 = off := by omega
  rw [translate_of_present, hdir, htab, hr.2, hmod]
  · rw [hdir]
    exact hr.1
  · rw [hdir, htab, hr.2]
    exact hp

/-- The window page of an absent table is not mapped. -/
theorem translate_window_absent (hr : Recursive m root) (hd : d < 1024) (hoff : off < 4096)
    (hp : ¬ Present (pageWord m root d)) :
    translate m root (0xffc00000 + d * 4096 + off) = none := by
  have hdir : (0xffc00000 + d * 4096 + off) / 2 ^ 22 = 1023 := by omega
  have htab : (0xffc00000 + d * 4096 + off) / 4096 % 1024 = d := by omega
  refine translate_of_no_page ?_
  rw [hdir, htab, hr.2]
  exact hp

end MissyKernel
