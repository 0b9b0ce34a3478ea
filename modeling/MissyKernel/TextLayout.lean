import Mathlib.Data.List.Basic
import Mathlib.Data.List.GetD
import Mathlib.Tactic

/-!
# A screen as a window on laid-out text

Text is laid out in rows of `cols` columns: a row ends at a newline, or as soon as it is
full. A screen of `height` rows shows the last of them. `Shows` says that a matrix of
glyphs with a position is that window, except where something is drawn over it; each way
a terminal can change its screen is a rule for it: a glyph at the position
(`Shows.append`), the next row (`Shows.newRow`), the next row with everything moved up
(`Shows.scroll`), and drawing a cursor (`Shows.hide`) and wiping it out (`Shows.reveal`).

The layout is what a reader would call the text on an endless roll of paper; it has the finished
rows and the row that is being filled. Glyphs are of any type, and the screen is a matrix given
by a function, so that the rules do not depend on how a terminal stores its cells. The
hidden cells are the ones that a cursor is drawn over.
-/

namespace MissyKernel

variable {α : Type}

/-- Laid-out text: the rows that have ended, and the one that is being filled. -/
structure Layout (α : Type) : Type where
  /-- the rows that have ended -/
  rows : List (List α)
  /-- the row that is being filled -/
  current : List α

namespace Layout

/-- No text. -/
def empty : Layout α := ⟨[], []⟩

/-- One more glyph in the row. -/
def append (l : Layout α) (b : α) : Layout α := ⟨l.rows, l.current ++ [b]⟩

/-- The row has ended. -/
def newRow (l : Layout α) : Layout α := ⟨l.rows ++ [l.current], []⟩

/-- One more character. -/
def put [DecidableEq α] (cols : ℕ) (newline : α) (l : Layout α) (c : α) : Layout α :=
  if c = newline then l.newRow
  else if (l.append c).current.length = cols then (l.append c).newRow
  else l.append c

/-- The rows that a screen of `height` rows shows. -/
def lastRows (height : ℕ) (l : Layout α) : List (List α) :=
  (l.rows ++ [l.current]).drop (l.rows.length + 1 - height)

/-- What is in column `c` of row `r` of some rows. -/
def glyphAt (blank : α) (rows : List (List α)) (r c : ℕ) : α := (rows.getD r []).getD c blank

end Layout

/-- The glyphs, all but the hidden ones, are the last rows of the text, and the position is
behind its end. -/
structure Shows (cols height : ℕ) (blank : α) (glyph : ℕ → ℕ → α) (hidden : ℕ → ℕ → Prop)
    (x y : ℕ) (l : Layout α) : Prop where
  /-- the column -/
  column : x = l.current.length
  /-- the row -/
  row : y + 1 = (l.lastRows height).length
  /-- the glyphs -/
  glyphs : ∀ r < height, ∀ c < cols, ¬ hidden r c →
    glyph r c = Layout.glyphAt blank (l.lastRows height) r c

/-- The row that is being filled is not full. -/
theorem length_current_put_lt [DecidableEq α] {cols : ℕ} {newline : α} {l : Layout α}
    (h : l.current.length < cols) (c : α) : (l.put cols newline c).current.length < cols := by
  have hcols : 0 < cols := by omega
  have happend : (l.append c).current.length = l.current.length + 1 :=
    List.length_append.trans (congrArg _ List.length_singleton)
  rw [Layout.put]
  split_ifs
  · exact hcols
  · exact hcols
  · omega

/-! ## The last rows -/

section Rows

variable {cols height r c : ℕ} {b blank : α} {l : Layout α} {rows : List (List α)}

theorem length_lastRows (l : Layout α) (hh : 0 < height) :
    (l.lastRows height).length = min (l.rows.length + 1) height := by
  rw [Layout.lastRows, List.length_drop, List.length_append, List.length_singleton]
  omega

theorem glyphAt_of_le (h : rows.length ≤ r) : Layout.glyphAt blank rows r c = blank := by
  rw [Layout.glyphAt, List.getD_eq_default _ _ h]
  rfl

theorem glyphAt_drop (n : ℕ) :
    Layout.glyphAt blank (rows.drop n) r c = Layout.glyphAt blank rows (n + r) c := by
  simp only [Layout.glyphAt, List.getD_eq_getElem?_getD, List.getElem?_drop]

/-- The row that is being filled. -/
theorem glyphAt_concat (row : List α) :
    Layout.glyphAt blank (rows ++ [row]) r c =
      if r = rows.length then row.getD c blank else Layout.glyphAt blank rows r c := by
  rcases lt_trichotomy r rows.length with hlt | heq | hgt
  · rw [if_neg hlt.ne, Layout.glyphAt, Layout.glyphAt, List.getD_append _ _ _ _ hlt]
  · rw [if_pos heq, Layout.glyphAt, List.getD_append_right _ _ _ _ heq.ge, heq, Nat.sub_self]
    rfl
  · rw [if_neg hgt.ne', glyphAt_of_le (by simpa using hgt), glyphAt_of_le hgt.le]

/-- One more glyph changes one place. -/
theorem glyphAt_append :
    Layout.glyphAt blank ((l.append b).rows ++ [(l.append b).current]) r c =
      if r = l.rows.length ∧ c = l.current.length then b
      else Layout.glyphAt blank (l.rows ++ [l.current]) r c := by
  rw [glyphAt_concat, glyphAt_concat, Layout.append]
  by_cases hr : r = l.rows.length
  · rw [if_pos hr, if_pos hr]
    rcases lt_trichotomy c l.current.length with hlt | heq | hgt
    · rw [if_neg (by omega), List.getD_append _ _ _ _ hlt]
    · rw [if_pos ⟨hr, heq⟩, List.getD_append_right _ _ _ _ heq.ge, heq, Nat.sub_self]
      rfl
    · rw [if_neg (by omega), List.getD_eq_default _ _ (by simpa using hgt),
        List.getD_eq_default _ _ hgt.le]
  · rw [if_neg hr, if_neg hr, if_neg (by omega)]

/-- A row that has ended is followed by an empty one, which shows nothing. -/
theorem glyphAt_newRow :
    Layout.glyphAt blank (l.newRow.rows ++ [l.newRow.current]) r c =
      Layout.glyphAt blank (l.rows ++ [l.current]) r c := by
  rw [glyphAt_concat, Layout.newRow]
  split
  · next hr => exact (glyphAt_of_le hr.ge).symm
  · rfl

end Rows

/-! ## The rules -/

namespace Shows

variable {cols height x y : ℕ} {b blank : α} {glyph glyph' : ℕ → ℕ → α}
  {hidden hidden' : ℕ → ℕ → Prop} {l : Layout α}

/-- The row as a number of finished rows. -/
theorem row_eq (h : Shows cols height blank glyph hidden x y l) (hh : 0 < height) :
    y = min l.rows.length (height - 1) := by
  have hrow := h.row
  rw [length_lastRows l hh] at hrow
  omega

/-- The empty text. -/
theorem empty (hh : 0 < height)
    (hglyph : ∀ r < height, ∀ c < cols, ¬ hidden r c → glyph r c = blank) :
    Shows cols height blank glyph hidden 0 0 Layout.empty := by
  refine ⟨rfl, ?_, fun r hr c hc hshown => ?_⟩
  · rw [length_lastRows _ hh, Layout.empty, List.length_nil]
    omega
  · rw [hglyph r hr c hc hshown, Layout.lastRows, glyphAt_drop, Layout.empty, glyphAt_concat]
    split <;> rfl

/-- The glyph at the position, which may have been hidden. -/
theorem append (h : Shows cols height blank glyph hidden x y l) (hh : 0 < height)
    (hglyph : ∀ r < height, ∀ c < cols, glyph' r c = if r = y ∧ c = x then b else glyph r c)
    (hhidden : ∀ r c, hidden r c → r = y ∧ c = x) :
    Shows cols height blank glyph' (fun _ _ => False) (x + 1) y (l.append b) := by
  have hrow := h.row_eq hh
  have hcolumn := h.column
  refine ⟨?_, ?_, fun r hr c hc _ => ?_⟩
  · rw [Layout.append, List.length_append, List.length_singleton, hcolumn]
  · have hlen := h.row
    rw [length_lastRows l hh] at hlen
    rw [length_lastRows _ hh]
    exact hlen
  · have hother : ¬ (r = y ∧ c = x) → glyph r c = Layout.glyphAt blank (l.lastRows height) r c :=
      fun hne => h.glyphs r hr c hc fun hrc => hne (hhidden r c hrc)
    rw [hglyph r hr c hc, Layout.lastRows, glyphAt_drop, glyphAt_append]
    by_cases hpos : r = y ∧ c = x
    · rw [if_pos hpos, if_pos]
      exact ⟨by change l.rows.length + 1 - height + r = _; omega, by omega⟩
    · rw [if_neg hpos, hother hpos, if_neg]
      · rw [Layout.lastRows, glyphAt_drop]
        rfl
      · change ¬ (l.rows.length + 1 - height + r = _ ∧ _)
        omega

/-- The next row, when there is one. -/
theorem newRow (h : Shows cols height blank glyph hidden x y l) (hy : y + 1 < height) :
    Shows cols height blank glyph hidden 0 (y + 1) l.newRow := by
  have hh : 0 < height := by omega
  have hrow := h.row_eq hh
  have hrows : l.newRow.rows.length = l.rows.length + 1 := by
    rw [Layout.newRow, List.length_append, List.length_singleton]
  refine ⟨rfl, ?_, fun r hr c hc hshown => ?_⟩
  · rw [length_lastRows _ hh, hrows]
    omega
  · rw [h.glyphs r hr c hc hshown, Layout.lastRows, Layout.lastRows, glyphAt_drop, glyphAt_drop,
      glyphAt_newRow, hrows]
    congr 1
    omega

/-- The next row, when the screen is full. -/
theorem scroll (h : Shows cols height blank glyph (fun _ _ => False) x y l) (hy : y + 1 = height)
    (hglyph : ∀ r < height, ∀ c < cols,
      glyph' r c = if r < y then glyph (r + 1) c else blank) :
    Shows cols height blank glyph' (fun _ _ => False) 0 y l.newRow := by
  have hh : 0 < height := by omega
  have hrow := h.row_eq hh
  have hrows : l.newRow.rows.length = l.rows.length + 1 := by
    rw [Layout.newRow, List.length_append, List.length_singleton]
  refine ⟨rfl, ?_, fun r hr c hc _ => ?_⟩
  · rw [length_lastRows _ hh, hrows]
    omega
  · rw [hglyph r hr c hc, Layout.lastRows, glyphAt_drop, glyphAt_newRow, hrows]
    by_cases hlast : r < y
    · rw [if_pos hlast, h.glyphs (r + 1) (by omega) c hc id, Layout.lastRows, glyphAt_drop]
      congr 1
      omega
    · rw [if_neg hlast, glyphAt_of_le]
      rw [List.length_append, List.length_singleton]
      omega

/-- Something is drawn over the screen. -/
theorem hide (h : Shows cols height blank glyph (fun _ _ => False) x y l)
    (hglyph : ∀ r < height, ∀ c < cols, ¬ hidden r c → glyph' r c = glyph r c) :
    Shows cols height blank glyph' hidden x y l := by
  refine ⟨h.column, h.row, fun r hr c hc hshown => ?_⟩
  rw [hglyph r hr c hc hshown]
  exact h.glyphs r hr c hc id

/-- A blank at the position hides nothing: the text ends before it. -/
theorem reveal (h : Shows cols height blank glyph hidden x y l) (hh : 0 < height)
    (hglyph : ∀ r < height, ∀ c < cols, glyph' r c = if r = y ∧ c = x then blank else glyph r c)
    (hhidden : ∀ r c, hidden r c → r = y ∧ c = x) :
    Shows cols height blank glyph' (fun _ _ => False) x y l := by
  have hrow := h.row_eq hh
  have hcolumn := h.column
  refine ⟨h.column, h.row, fun r hr c hc _ => ?_⟩
  rw [hglyph r hr c hc]
  by_cases hpos : r = y ∧ c = x
  · rw [if_pos hpos, Layout.lastRows, glyphAt_drop, glyphAt_concat, if_pos (by omega),
      List.getD_eq_default _ _ (by omega)]
  · rw [if_neg hpos]
    exact h.glyphs r hr c hc fun hrc => hpos (hhidden r c hrc)

end Shows

end MissyKernel
