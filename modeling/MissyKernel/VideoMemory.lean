import Mathlib.Data.BitVec
import Mathlib.Logic.Function.Basic
import Mathlib.Tactic

/-!
# Text-mode video memory

The text screen is 2000 cells from `0xb8000` on, row by row, each a 16-bit word: the
colour in the high byte, the glyph in the low one. Both terminals of the kernel scroll
it in place, by the same two loops: `copyCells` moves cells to the front, and
`fillCells` blanks cells.

`stores` is a ghost field: the addresses that were stored to, newest first. The words are
at even addresses, which is all that the terminals use.

Nothing is said about columns and rows: a screen of other dimensions, or a driver that keeps its
position in another way, could use the same loops. `cell_copyCells` and `cell_fillCells` say what
the loops leave in every cell, and `InScreen` that a store went to one of the 2000.
-/

namespace MissyKernel

/-- Memory as 16-bit words, with a log of the stores. -/
structure VideoMemory : Type where
  /-- the word at an address -/
  word : ℕ → BitVec 16
  /-- ghost: the addresses that were stored to -/
  stores : List ℕ

/-- `VIDEO_MEMORY_START` of `display.c`, `VIDEO_MEMORY_BASE` of `kterm.c` -/
def videoMemoryStart : ℕ := 0xb8000

/-- The address of a cell. -/
def cellAddr (i : ℕ) : ℕ := videoMemoryStart + 2 * i

/-- `(uint16_t) (color << 8)` -/
def colorWord (color : BitVec 8) : BitVec 16 := color.setWidth 16 <<< 8

namespace VideoMemory

/-- Store a word. -/
def store (m : VideoMemory) (a : ℕ) (w : BitVec 16) : VideoMemory where
  word := Function.update m.word a w
  stores := a :: m.stores

/-- The word in a cell. -/
def cell (m : VideoMemory) (i : ℕ) : BitVec 16 := m.word (cellAddr i)

/-- The glyph in a cell. -/
def glyph (m : VideoMemory) (i : ℕ) : BitVec 8 := (m.cell i).setWidth 8

/-- The loop `dest[i] = dest[i + stride]`, `n` times from `i` on. -/
def copyCells (stride : ℕ) : ℕ → ℕ → VideoMemory → VideoMemory
  | 0, _, m => m
  | n + 1, i, m => copyCells stride n (i + 1) (m.store (cellAddr i) (m.cell (i + stride)))

/-- The loop `dest[i] = w`, `n` times from `i` on. -/
def fillCells (w : BitVec 16) : ℕ → ℕ → VideoMemory → VideoMemory
  | 0, _, m => m
  | n + 1, i, m => fillCells w n (i + 1) (m.store (cellAddr i) w)

/-- Every store so far went to a cell of the screen. -/
def InScreen (m : VideoMemory) : Prop := ∀ a ∈ m.stores, ∃ i < 2000, a = cellAddr i

variable {m : VideoMemory} {w : BitVec 16} {stride n i j a : ℕ}

/-! ## What the cells hold -/

theorem cellAddr_inj : cellAddr i = cellAddr j ↔ i = j := by
  rw [cellAddr, cellAddr]
  omega

theorem cell_store : (m.store (cellAddr i) w).cell j = if j = i then w else m.cell j := by
  by_cases h : j = i
  · rw [if_pos h, h]
    exact Function.update_self _ _ _
  · rw [if_neg h]
    exact Function.update_of_ne (fun ha => h (cellAddr_inj.mp ha)) _ _

/-- The copy reads ahead of where it writes, so it moves the old cells. -/
theorem cell_copyCells (hstride : 0 < stride) :
    (copyCells stride n i m).cell j =
      if i ≤ j ∧ j < i + n then m.cell (j + stride) else m.cell j := by
  induction n generalizing i m with
  | zero =>
    rw [copyCells, if_neg (by omega)]
  | succ n ih =>
    rw [copyCells, ih]
    by_cases hin : i + 1 ≤ j ∧ j < i + 1 + n
    · rw [if_pos hin, cell_store, if_neg (by omega), if_pos (by omega)]
    · rw [if_neg hin, cell_store]
      by_cases hj : j = i
      · rw [if_pos hj, if_pos (by omega), hj]
      · rw [if_neg hj, if_neg (by omega)]

theorem cell_fillCells :
    (fillCells w n i m).cell j = if i ≤ j ∧ j < i + n then w else m.cell j := by
  induction n generalizing i m with
  | zero =>
    rw [fillCells, if_neg (by omega)]
  | succ n ih =>
    rw [fillCells, ih, cell_store]
    by_cases hj : j = i
    · rw [if_neg (by omega), if_pos hj, if_pos (by omega)]
    · rw [if_neg hj]
      by_cases hin : i + 1 ≤ j ∧ j < i + 1 + n
      · rw [if_pos hin, if_pos (by omega)]
      · rw [if_neg hin, if_neg (by omega)]

/-! ## Where the stores go -/

theorem inScreen_store : (m.store a w).InScreen ↔ (∃ i < 2000, a = cellAddr i) ∧ m.InScreen :=
  List.forall_mem_cons

theorem InScreen.store (h : m.InScreen) (hi : i < 2000) : (m.store (cellAddr i) w).InScreen :=
  inScreen_store.mpr ⟨⟨i, hi, rfl⟩, h⟩

theorem InScreen.copyCells (h : m.InScreen) (hn : i + n ≤ 2000) :
    (copyCells stride n i m).InScreen := by
  induction n generalizing i m with
  | zero => exact h
  | succ n ih => exact ih (h.store (by omega)) (by omega)

theorem InScreen.fillCells (h : m.InScreen) (hn : i + n ≤ 2000) : (fillCells w n i m).InScreen := by
  induction n generalizing i m with
  | zero => exact h
  | succ n ih => exact ih (h.store (by omega)) (by omega)

/-- A store is never taken back. -/
theorem stores_copyCells_subset : m.stores ⊆ (copyCells stride n i m).stores := by
  induction n generalizing i m with
  | zero => exact List.Subset.refl _
  | succ n ih => exact fun a ha => ih (List.mem_cons_of_mem _ ha)

theorem stores_fillCells_subset : m.stores ⊆ (fillCells w n i m).stores := by
  induction n generalizing i m with
  | zero => exact List.Subset.refl _
  | succ n ih => exact fun a ha => ih (List.mem_cons_of_mem _ ha)

/-! ## Glyphs -/

theorem setWidth_colorWord_or (color glyph : BitVec 8) :
    (colorWord color ||| glyph.setWidth 16).setWidth 8 = glyph := by
  apply BitVec.eq_of_getLsbD_eq
  intro k hk
  simp [colorWord, hk]

end VideoMemory

end MissyKernel
